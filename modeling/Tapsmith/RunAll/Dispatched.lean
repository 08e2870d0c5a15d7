import Tapsmith.RunAll.Accounted

namespace Tapsmith.RunAll.Parallel

open Lib.Machine Relation

/-!
# No file is lost, none is run twice at a time

* `Dispatch.Post`, `Dispatch.dispatchWith_spec` — what `dispatchNext` and `retireWorker` do;
* `Dispatch.step_spec`, `dispatchFilesParallel_spec` — a step, and the start, in these terms;
* `run_inv` — what holds wherever a dispatch is;
* `dispatched_once` — in every run each file is in one place, and with one worker at a time;
* `dispatch_settles` — a dispatch that is not settled waits for a worker, and not forever;
* `failed_without_workers` — without buckets, a file is failed only when no worker is left.

The workers are connected when the dispatch starts: the synchronous start offers a file to each of
them, also to one that a failed start of another has given a file already.
-/

variable {ctx : UIServerContext} {d d' : Dispatch} {i id : ℕ} {w : UIWorkerHandle}

/-! ### What the closures bring about -/

/-- A worker at rest has its file, and was sent just that. -/
structure UIWorkerHandle.Inv (w : UIWorkerHandle) : Prop where
  busy : w.busy = w.currentFile.isSome
  retired : w.retired = true → w.currentFile = none
  inbox : w.retired = false →
    w.process.inbox.map Entry.id = w.currentFile.toList.map Entry.id

/-- No live worker is idle while files wait. -/
def Dispatch.Conserving (d : Dispatch) : Prop :=
  d.parallelRunAborted = true ∨ d.fileQueue = [] ∨
    ∀ u ∈ d.activeWorkers, u.retired = true ∨ u.busy = true

/-- The promise is settled, or a worker has a file. -/
def Dispatch.Going (d : Dispatch) : Prop := d.settled ≠ none ∨ d.allDone = false

/-- What holds of `d'` where the closures have come from `d`. -/
structure Dispatch.Post (ctx : UIServerContext) (d d' : Dispatch) : Prop where
  moves : Moves ctx d d'
  workers : ∀ u ∈ d'.activeWorkers, u.Inv
  started : d'.initialDispatchDone = true
  conserving : ctx.bucketByProject = none → d'.settled ≠ none ∨ d'.Conserving

/-- A worker can be offered a file. -/
structure Dispatch.Ready (ctx : UIServerContext) (d : Dispatch) (i : ℕ) (w : UIWorkerHandle) :
    Prop where
  worker : d.activeWorkers[i]? = some w
  live : w.retired = false
  free : w.currentFile = none
  waiting : w.process.inbox = []
  stopped : d.parallelRunAborted = true → w.busy = false
  others : ∀ (j : ℕ) (u : UIWorkerHandle), d.activeWorkers[j]? = some u → j ≠ i → u.Inv
  unsettled : d.settled = none
  started : d.initialDispatchDone = true
  /-- There is one file for it at most, or it is the only one that is idle. -/
  only : ctx.bucketByProject = none → d.parallelRunAborted = true ∨ d.fileQueue.length ≤ 1 ∨
    ∀ (j : ℕ) (u : UIWorkerHandle), d.activeWorkers[j]? = some u → j ≠ i →
      u.retired = true ∨ u.busy = true

namespace Dispatch

theorem mem_set {u v : UIWorkerHandle} (hu : u ∈ d.activeWorkers.set i v) :
    u = v ∨ ∃ j, d.activeWorkers[j]? = some u ∧ j ≠ i := by
  obtain ⟨j, hj, rfl⟩ := List.getElem_of_mem hu
  by_cases hij : j = i
  · subst hij
    exact .inl (List.getElem_set_self ..)
  · refine .inr ⟨j, ?_, hij⟩
    rw [List.getElem_set_ne (Ne.symm hij)]
    exact List.getElem?_eq_getElem _

/-- The workers after one of them has changed. -/
theorem forall_set {v : UIWorkerHandle} {P : UIWorkerHandle → Prop}
    (hothers : ∀ (j : ℕ) (u : UIWorkerHandle), d.activeWorkers[j]? = some u → j ≠ i → P u)
    (hv : P v) : ∀ u ∈ d.activeWorkers.set i v, P u := by
  intro u hu
  rcases mem_set hu with rfl | ⟨j, hj, hij⟩
  · exact hv
  · exact hothers j u hj hij

theorem allDone_iff :
    d.allDone = true ↔ ∀ u ∈ d.activeWorkers, u.retired = true ∨ u.busy = false := by
  simp [allDone]

theorem remaining_eq_nil : d.remaining = [] ↔ ∀ u ∈ d.activeWorkers, u.retired = true := by
  simp [remaining]

theorem allDone_of_remaining (h : d.remaining = []) : d.allDone = true :=
  allDone_iff.mpr fun u hu => .inl (remaining_eq_nil.mp h u hu)

/-- **`maybeResolve`** settles the promise where no worker has a file. -/
theorem maybeResolve_spec (hstarted : d.initialDispatchDone = true)
    (hworkers : ∀ u ∈ d.activeWorkers, u.Inv)
    (hconserving : ctx.bucketByProject = none → d.settled ≠ none ∨ d.Conserving) :
    Post ctx d (d.maybeResolve ctx) ∧ (d.maybeResolve ctx).Going := by
  have hsame : Post ctx d d := ⟨.refl, hworkers, hstarted, hconserving⟩
  unfold maybeResolve
  by_cases hsettled : d.settled.isSome = true
  · rw [if_pos hsettled]
    exact ⟨hsame, .inl fun hcon => by rw [hcon] at hsettled; cases hsettled⟩
  · have hopen : d.settled = none := by simpa using hsettled
    have hresolve : ∀ d : Dispatch, d.settled = none →
        d.settleResolve = { d with settled := some .resolved } := by
      intro d hopen
      rw [settleResolve, hopen]
      rfl
    have hsettle : ∀ d' : Dispatch, Moves ctx d d' → d'.settled = none → d'.allDone = true →
        (d'.parallelRunAborted = true ∨ d'.fileQueue = []) →
        d'.activeWorkers = d.activeWorkers → d'.initialDispatchDone = true →
        Post ctx d d'.settleResolve ∧ d'.settleResolve.Going := by
      intro d' hmoves hopen' hdone hover hsame' hstarted'
      rw [hresolve d' hopen']
      have hnone : some Settled.resolved ≠ none := Option.some_ne_none _
      exact ⟨⟨hmoves.tail ⟨hopen', .settle .resolved hdone hover⟩,
        fun u hu => hworkers u (hsame' ▸ hu), hstarted', fun _ => .inl hnone⟩, .inl hnone⟩
    rw [if_neg hsettled]
    cases hdone : d.allDone with
    | false =>
      have hgoing : d.Going := .inr hdone
      split
      · exact ⟨hsame, hgoing⟩
      · split
        · rw [if_neg (by rw [hstarted]; exact Bool.noConfusion)]
          exact ⟨hsame, hgoing⟩
        · exact ⟨hsame, hgoing⟩
    | true =>
      by_cases haborted : d.parallelRunAborted = true
      · rw [if_pos haborted]
        exact hsettle d .refl hopen hdone (.inl haborted) rfl hstarted
      · rw [if_neg haborted]
        by_cases hqueue : d.fileQueue = []
        · rw [if_neg (not_not.mpr hqueue)]
          exact hsettle d .refl hopen hdone (.inr hqueue) rfl hstarted
        · -- only where buckets keep the idle workers from the files
          have hnone : ctx.bucketByProject = none → ∀ u ∈ d.activeWorkers, u.retired = true := by
            intro hbucket u hu
            rcases hconserving hbucket with hcon | hcon | hcon | hbusy
            · exact absurd hopen hcon
            · exact absurd hcon haborted
            · exact absurd hcon hqueue
            · rcases hbusy u hu with hu' | hu'
              · exact hu'
              · rcases allDone_iff.mp hdone u hu with hu'' | hu''
                · exact hu''
                · rw [hu'] at hu''
                  cases hu''
          rw [if_pos hqueue, if_neg (by rw [hstarted]; exact Bool.noConfusion), if_pos rfl]
          refine hsettle { d.failUnservableFiles ctx d.fileQueue with fileQueue := [] }
            (.single ⟨hopen, .fail hdone hnone⟩) ?_ ?_ (.inr rfl) ?_ ?_
          · exact failUnservableFiles_settled.trans hopen
          · rw [← hdone]
            exact congrArg (List.all · _) failUnservableFiles_activeWorkers
          · exact failUnservableFiles_activeWorkers
          · exact failUnservableFiles_initialDispatchDone.trans hstarted

theorem Post.trans {a b c : Dispatch} (h : Moves ctx a b) (h' : Post ctx b c) : Post ctx a c :=
  ⟨ReflTransGen.trans h h'.moves, h'.workers, h'.started, h'.conserving⟩

/-- A `dispatchNext` that keeps to this, where so many workers are live. -/
def Spec (ctx : UIServerContext) (dispatch : Dispatch → ℕ → Dispatch) (live : ℕ) : Prop :=
  ∀ (d : Dispatch) (i : ℕ) (w : UIWorkerHandle), d.Ready ctx i w → d.remaining.length ≤ live →
    Post ctx d (dispatch d i) ∧ (d.parallelRunAborted = false → (dispatch d i).Going)

/-- What is at rest after a worker was retired. -/
structure Bereft (ctx : UIServerContext) (d : Dispatch) : Prop where
  workers : ∀ u ∈ d.activeWorkers, u.Inv
  unsettled : d.settled = none
  started : d.initialDispatchDone = true
  only : ctx.bucketByProject = none → d.parallelRunAborted = true ∨ d.fileQueue.length ≤ 1 ∨
    ∀ u ∈ d.activeWorkers, u.retired = true ∨ u.busy = true

/-- **After a worker was retired.** -/
theorem resume_spec {dispatch : Dispatch → ℕ → Dispatch} {live : ℕ}
    (hspec : Spec ctx dispatch live) (h : d.Bereft ctx) (hlive : d.remaining.length ≤ live)
    (hdrained : d.remaining = [] → d.fileQueue = []) :
    Post ctx d (d.resume ctx dispatch) ∧ (d.resume ctx dispatch).Going := by
  unfold resume
  by_cases hnone : d.remaining = []
  · rw [if_pos hnone]
    have hdone := allDone_of_remaining hnone
    have hsettle : ∀ s : Settled,
        Post ctx d { d with settled := some s } ∧ Going { d with settled := some s } := fun s =>
      ⟨⟨.single ⟨h.unsettled, .settle s hdone (.inr (hdrained hnone))⟩, h.workers, h.started,
        fun _ => .inl (Option.some_ne_none s)⟩, .inl (Option.some_ne_none s)⟩
    split
    · rw [settleResolve, h.unsettled]
      exact hsettle .resolved
    · exact hsettle .rejected
  · rw [if_neg hnone]
    cases hidle : d.idleWorker? with
    | none =>
      have hbusy : ∀ u ∈ d.activeWorkers, u.retired = true ∨ u.busy = true := by
        intro u hu
        have hu' := List.findIdx?_eq_none_iff.mp hidle u hu
        cases hretired : u.retired with
        | true => exact .inl rfl
        | false =>
          rw [hretired] at hu'
          exact .inr (by simpa using hu')
      exact maybeResolve_spec h.started h.workers fun _ => .inr (.inr (.inr hbusy))
    | some j =>
      obtain ⟨hj, hw, -⟩ := List.findIdx?_eq_some_iff_getElem.mp hidle
      obtain ⟨hretired, hbusy⟩ : d.activeWorkers[j].retired = false ∧
        d.activeWorkers[j].busy = false := by simpa using hw
      have hinv := h.workers _ (List.getElem_mem hj)
      have hfree : d.activeWorkers[j].currentFile = none := by
        have hfile := hinv.busy
        rw [hbusy] at hfile
        exact Option.isNone_iff_eq_none.mp (by simpa using hfile.symm)
      have hready : d.Ready ctx j d.activeWorkers[j] := by
        refine ⟨List.getElem?_eq_getElem hj, hretired, hfree, ?_, fun _ => hbusy,
          fun _ u hu _ => h.workers u (List.mem_of_getElem? hu), h.unsettled, h.started,
          fun hbucket => ?_⟩
        · have hinbox := hinv.inbox hretired
          rw [hfree] at hinbox
          exact List.map_eq_nil_iff.mp hinbox
        · rcases h.only hbucket with hone | hone | hone
          · exact .inl hone
          · exact .inr (.inl hone)
          · exact .inr (.inr fun _ u hu _ => hone u (List.mem_of_getElem? hu))
      obtain ⟨hpost, -⟩ := hspec d j _ hready hlive
      obtain ⟨hresolved, hgoing⟩ :=
        maybeResolve_spec hpost.started hpost.workers hpost.conserving
      exact ⟨.trans hpost.moves hresolved, hgoing⟩

theorem remaining_length : d.remaining.length = d.activeWorkers.countP (fun w => !w.retired) :=
  List.countP_eq_length_filter.symm

theorem withdraw_activeWorkers : (d.withdraw i w).activeWorkers = d.activeWorkers.set i
    { w with retired := true, busy := false, currentFile := none, currentTest := none } := by
  unfold withdraw
  dsimp only
  split
  · rfl
  · split <;> rfl

theorem withdraw_frame : (d.withdraw i w).settled = d.settled ∧
    (d.withdraw i w).initialDispatchDone = d.initialDispatchDone ∧
    (d.withdraw i w).parallelRunAborted = d.parallelRunAborted := by
  unfold withdraw
  dsimp only
  split
  · exact ⟨rfl, rfl, rfl⟩
  · split <;> exact ⟨rfl, rfl, rfl⟩

theorem withdraw_remaining (hi : d.activeWorkers[i]? = some w) (hlive : w.retired = false) :
    (d.withdraw i w).remaining.length + 1 = d.remaining.length := by
  have hset := countP_set_add (p := fun w : UIWorkerHandle => !w.retired)
    (b := { w with retired := true, busy := false, currentFile := none, currentTest := none }) hi
  rw [hlive] at hset
  rw [remaining_length, remaining_length, withdraw_activeWorkers]
  exact hset

/-- **Retiring**, from where the worker is withdrawn. -/
theorem drain_spec {dispatch : Dispatch → ℕ → Dispatch} {live : ℕ}
    (hspec : Spec ctx dispatch live) (h : d.Bereft ctx) (hlive : d.remaining.length ≤ live) :
    Post ctx d ((d.drain ctx).resume ctx dispatch) ∧
      ((d.drain ctx).resume ctx dispatch).Going := by
  have hworkers : (d.drain ctx).activeWorkers = d.activeWorkers := failUnservableFiles_activeWorkers
  have hqueue : (d.drain ctx).fileQueue = d.fileQueue.filter (!d.isOrphan ctx ·) :=
    failUnservableFiles_fileQueue
  have hremaining : (d.drain ctx).remaining = d.remaining :=
    congrArg (List.filter _) hworkers
  have hbereft : (d.drain ctx).Bereft ctx := by
    refine ⟨fun u hu => h.workers u (hworkers ▸ hu), failUnservableFiles_settled.trans h.unsettled,
      failUnservableFiles_initialDispatchDone.trans h.started, fun hbucket => ?_⟩
    rcases h.only hbucket with hone | hone | hone
    · exact .inl (failUnservableFiles_parallelRunAborted.trans hone)
    · refine .inr (.inl ?_)
      rw [hqueue]
      exact (List.length_filter_le _ _).trans hone
    · exact .inr (.inr fun u hu => hone u (hworkers ▸ hu))
  obtain ⟨hpost, hgoing⟩ := resume_spec hspec hbereft (hremaining ▸ hlive) fun hnone => by
    rw [hqueue, List.filter_eq_nil_iff]
    intro e _
    rw [isOrphan, if_pos (hremaining ▸ hnone)]
    exact Bool.noConfusion
  exact ⟨.trans (.single ⟨h.unsettled, .drain⟩) hpost, hgoing⟩

theorem withdraw_fileQueue :
    (d.withdraw i w).fileQueue.length ≤ d.fileQueue.length + 1 := by
  unfold withdraw
  dsimp only
  split
  · exact Nat.le_succ _
  · split
    · exact Nat.le_succ _
    · exact Nat.le_refl _

theorem inv_withdrawn : UIWorkerHandle.Inv
    { w with retired := true, busy := false, currentFile := none, currentTest := none } :=
  ⟨rfl, fun _ => rfl, fun hcon => by cases hcon⟩

/-- A worker is withdrawn. -/
theorem bereft_withdraw
    (hothers : ∀ (j : ℕ) (u : UIWorkerHandle), d.activeWorkers[j]? = some u → j ≠ i → u.Inv)
    (hopen : d.settled = none) (hstarted : d.initialDispatchDone = true)
    (honly : ctx.bucketByProject = none → d.parallelRunAborted = true ∨
      (d.withdraw i w).fileQueue.length ≤ 1 ∨
      ∀ (j : ℕ) (u : UIWorkerHandle), d.activeWorkers[j]? = some u → j ≠ i →
        u.retired = true ∨ u.busy = true) : (d.withdraw i w).Bereft ctx := by
  obtain ⟨hsettled, hinitial, haborted⟩ := withdraw_frame (d := d) (i := i) (w := w)
  refine ⟨?_, hsettled.trans hopen, hinitial.trans hstarted, fun hbucket => ?_⟩
  · rw [withdraw_activeWorkers]
    exact forall_set hothers inv_withdrawn
  · rcases honly hbucket with hone | hone | hone
    · exact .inl (haborted.trans hone)
    · exact .inr (.inl hone)
    · right
      right
      rw [withdraw_activeWorkers]
      exact forall_set hone (.inl rfl)

/-- A worker without a file, whose inbox is empty, is at rest once it is not busy. -/
theorem Ready.inv_idle (h : d.Ready ctx i w) :
    UIWorkerHandle.Inv { w with busy := false, currentFile := none, currentTest := none } :=
  ⟨rfl, fun _ => rfl, fun _ => congrArg (List.map Entry.id) h.waiting⟩

theorem serves_of_none (h : ctx.bucketByProject = none) (entry : Entry) :
    serves ctx w entry = true := by
  rw [serves, h]

/-- Without buckets a worker finds nothing only in an empty queue. -/
theorem fileQueue_eq_nil (hbucket : ctx.bucketByProject = none)
    (hnext : d.fileQueue.find? (serves ctx w) = none) : d.fileQueue = [] :=
  List.eq_nil_iff_forall_not_mem.mpr fun e he =>
    List.find?_eq_none.mp hnext e he (serves_of_none hbucket e)

/-- **`dispatchNext`**: the worker takes a file, or is idle, or is lost and another takes over. -/
theorem dispatchWith_spec (live : ℕ) : Spec ctx (dispatchWith ctx live) live := by
  induction live with
  | zero =>
    intro d i w h hlive
    have hmem : w ∈ d.remaining :=
      List.mem_filter.mpr ⟨List.mem_of_getElem? h.worker, by rw [h.live]; rfl⟩
    exact absurd (List.length_pos_of_mem hmem) (Nat.not_lt.mpr hlive)
  | succ live ih =>
    intro d i w h hlive
    have hunfold : dispatchWith ctx (live + 1) d i
        = dispatchStep ctx (retireWith ctx (dispatchWith ctx live)) d i := rfl
    rw [hunfold, dispatchStep, h.worker]
    dsimp only
    by_cases haborted : d.parallelRunAborted = true
    · -- nothing is handed out any more
      rw [if_pos (.inr haborted)]
      refine ⟨⟨.refl, fun u hu => ?_, h.started, fun _ => .inr (.inl haborted)⟩,
        fun hcon => by rw [haborted] at hcon; cases hcon⟩
      obtain ⟨j, hj, rfl⟩ := List.getElem_of_mem hu
      by_cases hij : j = i
      · subst hij
        obtain rfl := Option.some_injective _ ((List.getElem?_eq_getElem hj).symm.trans h.worker)
        refine ⟨(h.stopped haborted).trans ?_, fun _ => h.free, fun _ => ?_⟩
        · rw [h.free]
          rfl
        · rw [h.waiting, h.free]
          rfl
      · exact h.others j _ (List.getElem?_eq_getElem hj) hij
    · rw [if_neg (by rw [h.live]; simpa using haborted)]
      cases hnext : d.fileQueue.find? (serves ctx w) with
      | none =>
        have hmove : Moves ctx d (d.setIdle i w) :=
          .single ⟨h.unsettled, .idle i w h.worker h.free⟩
        have hworkers : ∀ u ∈ (d.setIdle i w).activeWorkers, u.Inv :=
          forall_set h.others h.inv_idle
        have hresolved : Post ctx (d.setIdle i w) ((d.setIdle i w).maybeResolve ctx) ∧
            ((d.setIdle i w).maybeResolve ctx).Going :=
          maybeResolve_spec h.started hworkers fun hbucket =>
            .inr (.inr (.inl (fileQueue_eq_nil hbucket hnext)))
        obtain ⟨hpost, hgoing⟩ := hresolved
        exact ⟨.trans hmove hpost, fun _ => hgoing⟩
      | some next =>
        dsimp only
        have hassigned : (d.assign ctx i w next).activeWorkers[i]? = some (taking w next) :=
          Move.getElem?_setWorker
            (d := { d with fileQueue := d.fileQueue.eraseP (serves ctx w) }) h.worker
        have hothers : ∀ (j : ℕ) (u : UIWorkerHandle),
            (d.assign ctx i w next).activeWorkers[j]? = some u → j ≠ i →
              d.activeWorkers[j]? = some u := by
          intro j u hj hij
          rw [← hj]
          exact (List.getElem?_set_ne (Ne.symm hij)).symm
        have hlength : (d.assign ctx i w next).fileQueue.length + 1 = d.fileQueue.length := by
          have hpos := List.length_pos_of_mem (List.mem_of_find?_eq_some hnext)
          have herase := List.length_eraseP_of_mem (List.mem_of_find?_eq_some hnext)
            (List.find?_some hnext)
          show (d.fileQueue.eraseP (serves ctx w)).length + 1 = _
          omega
        split
        · -- the file is sent
          refine ⟨⟨.single ⟨h.unsettled, .hand i w next h.worker h.free hnext⟩, ?_, h.started,
            fun hbucket => ?_⟩, fun _ => .inr ?_⟩
          · refine forall_set (fun j u hj hij => h.others j u (hothers j u hj hij) hij)
              ⟨rfl, fun hcon => ?_, fun _ => ?_⟩
            · have hretired : w.retired = true := hcon
              rw [h.live] at hretired
              cases hretired
            · show (w.process.inbox ++ [next]).map Entry.id = [next.id]
              rw [h.waiting]
              rfl
          · right
            rcases h.only hbucket with hone | hone | hone
            · exact .inl hone
            · refine .inr (.inl (List.length_eq_zero_iff.mp ?_))
              show (d.assign ctx i w next).fileQueue.length = 0
              omega
            · exact .inr (.inr (forall_set
                (fun j u hj hij => hone j u (hothers j u hj hij) hij) (.inr rfl)))
          · refine Bool.eq_false_iff.mpr fun hdone => ?_
            have hmem := List.mem_of_getElem? (Move.getElem?_setWorker (u := { taking w next with
              process := { (taking w next).process with
                inbox := (taking w next).process.inbox ++ [next] } }) hassigned)
            rcases allDone_iff.mp hdone _ hmem with hcon | hcon
            · have hretired : w.retired = true := hcon
              rw [h.live] at hretired
              cases hretired
            · cases hcon
        · -- it cannot be sent, and the worker is retired
          have hlost : (d.assign ctx i w next).withdraw i (taking w next) |>.Bereft ctx := by
            refine bereft_withdraw
              (fun j u hj hij => h.others j u (hothers j u hj hij) hij) h.unsettled h.started
              fun hbucket => ?_
            rcases h.only hbucket with hone | hone | hone
            · exact .inl hone
            · refine .inr (.inl ?_)
              have hle := withdraw_fileQueue (d := d.assign ctx i w next) (i := i)
                (w := taking w next)
              omega
            · exact .inr (.inr fun j u hj hij => hone j u (hothers j u hj hij) hij)
          have hremaining := withdraw_remaining hassigned h.live
          have hsame : (d.assign ctx i w next).remaining.length = d.remaining.length := by
            have hset := countP_set_add (p := fun w : UIWorkerHandle => !w.retired)
              (b := taking w next) h.worker
            rw [remaining_length, remaining_length]
            exact Nat.add_right_cancel hset
          obtain ⟨hpost, hgoing⟩ := drain_spec ih hlost (by omega)
          have hlive' : ¬ (taking w next).retired = true := fun hcon => by
            have hretired : w.retired = true := hcon
            rw [h.live] at hretired
            cases hretired
          rw [retireWith, hassigned]
          dsimp only
          rw [if_neg hlive']
          exact ⟨.trans (.single ⟨h.unsettled, .lose i w next h.worker h.live h.free hnext⟩) hpost,
            fun _ => hgoing⟩

theorem dispatchNext_spec (h : d.Ready ctx i w) : Post ctx d (d.dispatchNext ctx i) ∧
    (d.parallelRunAborted = false → (d.dispatchNext ctx i).Going) :=
  dispatchWith_spec d.remaining.length d i w h (le_refl _)

end Dispatch

/-! ### Moves, one after the other -/

namespace Moves

theorem onward (h : Moves ctx d d') : d.Onward d' := by
  induction h with
  | refl => exact .of_eq rfl
  | tail _ hmove ih => exact ih.trans hmove.2.onward

theorem potential_le (h : Moves ctx d d') : d'.potential ≤ d.potential := by
  induction h with
  | refl => exact le_refl _
  | tail _ hmove ih => exact hmove.2.potential_le.trans ih

end Moves

/-- A dispatch is settled where all is done, and nothing is left unless the user has stopped it. -/
theorem Move.ended (h : Move ctx d d') (hopen : d.settled = none) (hsettled : d'.settled ≠ none) :
    d'.allDone = true ∧ (d'.parallelRunAborted = true ∨ d'.fileQueue = []) := by
  have hsame : d'.settled = d.settled →
      d'.allDone = true ∧ (d'.parallelRunAborted = true ∨ d'.fileQueue = []) :=
    fun heq => absurd (heq.trans hopen) hsettled
  cases h with
  | settle s hdone hover => exact ⟨hdone, hover⟩
  | lose => exact hsame Dispatch.withdraw_frame.1
  | withdraw => exact hsame Dispatch.withdraw_frame.1
  | drain => exact hsame Dispatch.failUnservableFiles_settled
  | fail => exact hsame Dispatch.failUnservableFiles_settled
  | _ => exact hsame rfl

/-- What is true of a dispatch of so many files to these workers, wherever it is. -/
structure Dispatch.Reached (ctx : UIServerContext) (workers : List UIWorkerHandle)
    (files : List PlannedFile) (unavailable : List ℕ) (d : Dispatch) : Prop where
  places : ∀ id, d.places id = if id < files.length then 1 else 0
  totals : d.Totals
  onward : Dispatch.Onward { activeWorkers := workers, fileQueue := [] } d
  sent : ∀ (j : ℕ) (entry : Entry), .sent j entry ∈ d.log →
    ∃ w, workers[j]? = some w ∧ Dispatch.serves ctx w entry = true
  unservable : ctx.bucketByProject = none → ∀ (entry : Entry) (n : ℕ),
    .unservable entry n ∈ d.log →
      entry.id ∈ unavailable ∨ ∀ w ∈ d.activeWorkers, w.retired = true
  ended : d.settled ≠ none → d.allDone = true ∧ (d.parallelRunAborted = true ∨ d.fileQueue = [])

section Reached

variable {workers : List UIWorkerHandle} {files : List PlannedFile} {unavailable : List ℕ}

theorem Dispatch.Reached.move (h : d.Reached ctx workers files unavailable)
    (hopen : d.settled = none) (hmove : Move ctx d d') :
    d'.Reached ctx workers files unavailable := by
  obtain ⟨events, hlogs⟩ := hmove.logs
  have honward := hmove.onward
  refine ⟨fun id => hmove.places.trans (h.places id), hmove.totals h.totals,
    h.onward.trans honward, fun j entry hmem => ?_, fun hbucket entry n hmem => ?_,
    hmove.ended hopen⟩
  · rw [hlogs.log] at hmem
    rcases List.mem_append.mp hmem with hmem | hmem
    · exact h.sent j entry hmem
    · -- its bucket is the one it has started with
      obtain ⟨w', hj, hserves⟩ := hlogs.sent j entry hmem
      obtain ⟨hlt, -⟩ := List.getElem?_eq_some_iff.mp hj
      have hlt' : j < workers.length := by
        rw [h.onward.length] at hlt
        exact hlt
      obtain ⟨w'', hj', hbucket, -⟩ :=
        h.onward.worker j workers[j] (List.getElem?_eq_getElem hlt')
      obtain rfl := Option.some_injective _ (hj.symm.trans hj')
      exact ⟨workers[j], List.getElem?_eq_getElem hlt',
        (serves_congr hbucket entry).symm.trans hserves⟩
  · rw [hlogs.log] at hmem
    rcases List.mem_append.mp hmem with hmem | hmem
    · exact (h.unservable hbucket entry n hmem).imp id honward.allRetired
    · exact .inr (honward.allRetired (hlogs.unservable entry n hmem hbucket))

theorem Dispatch.Reached.moves (h : d.Reached ctx workers files unavailable)
    (hmoves : Moves ctx d d') : d'.Reached ctx workers files unavailable := by
  induction hmoves with
  | refl => exact h
  | tail _ hmove ih => exact ih.move hmove.1 hmove.2

end Reached

/-! ### Steps -/

/-- A dispatch that waits, or is settled. -/
structure Dispatch.Rest (ctx : UIServerContext) (d : Dispatch) : Prop where
  workers : ∀ u ∈ d.activeWorkers, u.Inv
  started : d.settled = none → d.initialDispatchDone = true
  going : d.Going
  conserving : ctx.bucketByProject = none → d.settled ≠ none ∨ d.Conserving

namespace Dispatch

theorem Post.rest (h : Post ctx d d') (hgoing : d'.Going) : d'.Rest ctx :=
  ⟨h.workers, fun _ => h.started, hgoing, h.conserving⟩

/-- A worker that changes, but is as busy as before. -/
theorem allDone_setWorker {u : UIWorkerHandle} (hi : d.activeWorkers[i]? = some w)
    (hretired : u.retired = w.retired) (hbusy : u.busy = w.busy) :
    (d.setWorker i u).allDone = d.allDone := by
  have hothers : ∀ (j : ℕ) (v : UIWorkerHandle), j ≠ i →
      ((d.setWorker i u).activeWorkers[j]? = some v ↔ d.activeWorkers[j]? = some v) := by
    intro j v hij
    rw [show (d.setWorker i u).activeWorkers[j]? = d.activeWorkers[j]? from
      List.getElem?_set_ne (Ne.symm hij)]
  rw [Bool.eq_iff_iff, allDone_iff, allDone_iff]
  constructor
  · intro hall v hv
    -- the workers are compared place by place
    obtain ⟨j, hj, rfl⟩ := List.getElem_of_mem hv
    have hj' := List.getElem?_eq_getElem hj
    by_cases hij : j = i
    · subst hij
      obtain rfl := Option.some_injective _ (hj'.symm.trans hi)
      rw [← hretired, ← hbusy]
      exact hall u (List.mem_of_getElem? (Move.getElem?_setWorker hi))
    · exact hall _ (List.mem_of_getElem? ((hothers j _ hij).mpr hj'))
  · intro hall
    refine forall_set (fun j v hj _ => hall v (List.mem_of_getElem? hj)) ?_
    rw [hretired, hbusy]
    exact hall w (List.mem_of_getElem? hi)

theorem Conserving.setWorker {u : UIWorkerHandle} (h : d.Conserving)
    (hi : d.activeWorkers[i]? = some w) (hretired : u.retired = w.retired)
    (hbusy : u.busy = w.busy) : (d.setWorker i u).Conserving := by
  refine h.imp id fun h => h.imp id fun hall =>
    forall_set (fun j v hj _ => hall v (List.mem_of_getElem? hj)) ?_
  rw [hretired, hbusy]
  exact hall w (List.mem_of_getElem? hi)

/-- Something is noted of a worker. -/
theorem Rest.setWorker {u : UIWorkerHandle} (h : d.Rest ctx) (hi : d.activeWorkers[i]? = some w)
    (hinv : u.Inv) (hretired : u.retired = w.retired) (hbusy : u.busy = w.busy) :
    (d.setWorker i u).Rest ctx :=
  ⟨forall_set (fun _ v hj _ => h.workers v (List.mem_of_getElem? hj)) hinv, h.started,
    h.going.imp id fun hgoing => (allDone_setWorker hi hretired hbusy).trans hgoing,
    fun hbucket => (h.conserving hbucket).imp id fun hcon => hcon.setWorker hi hretired hbusy⟩

/-- **`retireWorker`**, of a worker that lives. -/
theorem retireWorker_spec (hi : d.activeWorkers[i]? = some w) (hlive : w.retired = false)
    (hothers : ∀ (j : ℕ) (u : UIWorkerHandle), d.activeWorkers[j]? = some u → j ≠ i → u.Inv)
    (hopen : d.settled = none) (hstarted : d.initialDispatchDone = true)
    (hconserving : ctx.bucketByProject = none → d.Conserving) :
    Post ctx d (d.retireWorker ctx i) ∧ (d.retireWorker ctx i).Going ∧
      (d.retireWorker ctx i).potential < d.potential := by
  have hbereft : (d.withdraw i w).Bereft ctx := by
    refine bereft_withdraw hothers hopen hstarted fun hbucket => ?_
    rcases hconserving hbucket with hone | hone | hone
    · exact .inl hone
    · -- only the file of the worker itself waits
      refine .inr (.inl ?_)
      have hle := withdraw_fileQueue (d := d) (i := i) (w := w)
      rw [hone] at hle
      exact hle
    · exact .inr (.inr fun j u hj _ => hone u (List.mem_of_getElem? hj))
  have hremaining := withdraw_remaining hi hlive
  -- there is fuel for the workers that are left
  obtain ⟨hpost, hgoing⟩ := drain_spec (dispatchWith_spec d.remaining.length) hbereft (by omega)
  have hfalls := (Moves.potential_le hpost.moves).trans_lt (Move.potential_withdraw hi hlive)
  rw [retireWorker, retireWith, hi]
  dsimp only
  rw [if_neg (by rw [hlive]; exact Bool.noConfusion)]
  exact ⟨.trans (.single ⟨hopen, .withdraw i w hi hlive⟩) hpost, hgoing, hfalls⟩

/-- A live worker answers by it, or is gone. -/
def concludes (d : Dispatch) : Op → Bool
  | .fileDone i _ _ => d.activeWorkers[i]?.any (!·.retired)
  | .error i => d.activeWorkers[i]?.any (!·.retired)
  | .exit i => d.activeWorkers[i]?.any (!·.retired)
  | _ => false

/-- A step, with what it shows: the message, and whether a live worker concluded by it. -/
def observe (ctx : UIServerContext) (d : Dispatch) (op : Op) : Option (Dispatch × (Op × Bool)) :=
  (d.step ctx op).map fun d' => (d', op, d.concludes op)

/-- What a step comes to. -/
structure Stepped (ctx : UIServerContext) (d : Dispatch) (op : Op) (d' : Dispatch) : Prop where
  moves : Moves ctx d d'
  rest : d'.Rest ctx
  falls : d.concludes op = true → d'.potential < d.potential

theorem Stepped.same {op : Op} (h : d.Rest ctx) (hnot : d.concludes op = false) :
    Stepped ctx d op d :=
  ⟨.refl, h, fun hcon => by rw [hnot] at hcon; cases hcon⟩

theorem concludes_of_retired (hi : d.activeWorkers[i]? = some w) (hretired : w.retired = true) :
    (d.activeWorkers[i]?.any (!·.retired)) = false := by
  rw [hi]
  show (!w.retired) = false
  rw [hretired]
  rfl

/-- A message is of a worker that the dispatch has. -/
theorem step_worker {op : Op} (hworker : op.worker = some i) (hstep : d.step ctx op = some d') :
    d.settled = none ∧ ∃ w, d.activeWorkers[i]? = some w ∧ d.onMessage ctx i w op = some d' := by
  unfold step at hstep
  split at hstep
  · cases hstep
  · rename_i hopen
    refine ⟨by simpa using hopen, ?_⟩
    split at hstep
    · cases hworker
    · cases hworker
    · rw [hworker] at hstep
      obtain ⟨j, hj, hrest⟩ := Option.bind_eq_some_iff.mp hstep
      cases hj
      exact Option.bind_eq_some_iff.mp hrest

/-- The worker has been sent the file that it answers. -/
theorem inbox_eq {entry : Entry} {rest : List Entry} (h : w.Inv) (hlive : w.retired = false)
    (hinbox : w.process.inbox = entry :: rest) :
    ∃ e, w.currentFile = some e ∧ e.id = entry.id ∧ rest = [] := by
  have hids := h.inbox hlive
  rw [hinbox] at hids
  cases hfile : w.currentFile with
  | none =>
    rw [hfile] at hids
    cases hids
  | some e =>
    rw [hfile] at hids
    obtain ⟨hid, hrest⟩ := List.cons.inj hids
    exact ⟨e, rfl, hid.symm, List.map_eq_nil_iff.mp hrest⟩

/-- **A file is answered.** -/
theorem onFileDone_spec {entry : Entry} {u : UIWorkerHandle} (results : List TestResult)
    (durationMs : ℕ) (h : d.Rest ctx) (hopen : d.settled = none)
    (hi : d.activeWorkers[i]? = some w) (hlive : w.retired = false)
    (hinbox : w.process.inbox = entry :: u.process.inbox)
    (hu : u = { w with process := { w.process with inbox := u.process.inbox } }) :
    Moves ctx d (d.onFileDone ctx i u entry results durationMs) ∧
      (d.onFileDone ctx i u entry results durationMs).Rest ctx ∧
      (d.onFileDone ctx i u entry results durationMs).potential < d.potential := by
  obtain ⟨e, hfile, hid, hempty⟩ := inbox_eq (h.workers w (List.mem_of_getElem? hi)) hlive hinbox
  have hretired : u.retired = w.retired := by rw [hu]
  have hbucket : u.bucketSignature = w.bucketSignature := by rw [hu]
  have hbusy : u.busy = w.busy := by rw [hu]
  have hothers : ∀ (v : UIWorkerHandle) (j : ℕ) (u' : UIWorkerHandle),
      ((d.countDone i u entry results durationMs).setWorker i v).activeWorkers[j]? = some u' →
        j ≠ i → d.activeWorkers[j]? = some u' := by
    intro v j u' hj hij
    rw [← hj]
    exact (List.getElem?_set_ne (Ne.symm hij)).symm
  have hset : ∀ v : UIWorkerHandle,
      ((d.countDone i u entry results durationMs).setWorker i v).activeWorkers[i]? = some v :=
    fun v => Move.getElem?_setWorker (d := d.countDone i u entry results durationMs) hi
  unfold onFileDone
  dsimp only
  split
  · rename_i haborted
    -- the worker is idle, and nothing is handed out any more
    have hinv : UIWorkerHandle.Inv
        { u with busy := false, currentFile := none, currentTest := none } :=
      ⟨rfl, fun _ => rfl, fun _ => congrArg (List.map Entry.id) hempty⟩
    have hmove : Move ctx d ((d.countDone i u entry results durationMs).setWorker i
        { u with busy := false, currentFile := none, currentTest := none }) :=
      .done i w u _ e entry results durationMs hi hfile hid rfl hretired hbucket
    have hfalls : ((d.countDone i u entry results durationMs).setWorker i
        { u with busy := false, currentFile := none, currentTest := none }).potential
          < d.potential := Move.potential_done hi hfile rfl hretired
    have hworkers : ∀ v ∈ ((d.countDone i u entry results durationMs).setWorker i
        { u with busy := false, currentFile := none, currentTest := none }).activeWorkers,
          v.Inv :=
      forall_set (fun _ v hj _ => h.workers v (List.mem_of_getElem? hj)) hinv
    have hresolved : Post ctx ((d.countDone i u entry results durationMs).setWorker i
        { u with busy := false, currentFile := none, currentTest := none }) _ ∧ Going _ :=
      maybeResolve_spec (h.started hopen) hworkers fun _ => .inr (.inl haborted)
    obtain ⟨hpost, hgoing⟩ := hresolved
    exact ⟨.trans (.single ⟨hopen, hmove⟩) hpost.moves, hpost.rest hgoing,
      (Moves.potential_le hpost.moves).trans_lt hfalls⟩
  · rename_i hrunning
    have hmove : Move ctx d ((d.countDone i u entry results durationMs).setWorker i
        { u with currentFile := none, currentTest := none }) :=
      .done i w u _ e entry results durationMs hi hfile hid rfl hretired hbucket
    have hfalls : ((d.countDone i u entry results durationMs).setWorker i
        { u with currentFile := none, currentTest := none }).potential < d.potential :=
      Move.potential_done hi hfile rfl hretired
    have hready : Ready ctx ((d.countDone i u entry results durationMs).setWorker i
        { u with currentFile := none, currentTest := none }) i
        { u with currentFile := none, currentTest := none } := by
      refine ⟨hset _, hretired.trans hlive, rfl, hempty, fun hcon => absurd hcon hrunning,
        fun j v hj hij => h.workers v (List.mem_of_getElem? (hothers _ j v hj hij)), hopen,
        h.started hopen, fun hnone => ?_⟩
      rcases h.conserving hnone with hcon | hcon | hcon | hcon
      · exact absurd hopen hcon
      · exact .inl hcon
      · refine .inr (.inl ?_)
        show d.fileQueue.length ≤ 1
        rw [hcon]
        exact Nat.zero_le 1
      · exact .inr (.inr fun j v hj hij =>
          hcon v (List.mem_of_getElem? (hothers _ j v hj hij)))
    obtain ⟨hpost, hgoing⟩ := dispatchNext_spec hready
    exact ⟨.trans (.single ⟨hopen, hmove⟩) hpost.moves,
      hpost.rest (hgoing (Bool.eq_false_iff.mpr hrunning)),
      (Moves.potential_le hpost.moves).trans_lt hfalls⟩

/-- **The workers that have not stopped are killed.** -/
theorem escalateStop_spec (h : d.Rest ctx) (hopen : d.settled = none) :
    Moves ctx d d.escalateStop ∧ d.escalateStop.Rest ctx := by
  unfold escalateStop
  split
  · exact ⟨.refl, h⟩
  · rename_i hrunning
    have haborted : d.parallelRunAborted = true := by simpa using hrunning
    split
    · have hdone : d.killWedged.allDone = true := by
        refine allDone_iff.mpr fun u hu => ?_
        obtain ⟨v, -, rfl⟩ := List.mem_map.mp hu
        split
        · exact .inl rfl
        · rename_i hwedged
          rw [isWedged] at hwedged
          cases hretired : v.retired with
          | true => exact .inl rfl
          | false =>
            rw [hretired] at hwedged
            exact .inr (by simpa using hwedged)
      have hresolve : d.killWedged.settleResolve
          = { d.killWedged with settled := some .resolved } := by
        have hopen' : d.killWedged.settled = none := hopen
        rw [settleResolve, hopen']
        rfl
      have hnone : some Settled.resolved ≠ none := Option.some_ne_none _
      rw [hresolve]
      refine ⟨.tail (.single ⟨hopen, .kill⟩) ⟨hopen, .settle .resolved hdone (.inl haborted)⟩,
        ?_, fun hcon => absurd hcon hnone, .inl hnone, fun _ => .inl hnone⟩
      intro u hu
      obtain ⟨v, hv, rfl⟩ := List.mem_map.mp hu
      split
      · exact inv_withdrawn
      · exact h.workers v hv
    · exact ⟨.refl, h⟩

/-- **A step** is made of moves, leads to a dispatch that waits or is settled, and leaves less to
    do where a worker answers or is gone. -/
theorem step_spec {op : Op} (h : d.Rest ctx) (hstep : d.step ctx op = some d') :
    Stepped ctx d op d' := by
  cases op with
  | stop =>
    rw [step] at hstep
    split at hstep
    · cases hstep
    · rename_i hopen
      obtain rfl := Option.some_injective _ hstep
      exact ⟨.single ⟨by simpa using hopen, .abort⟩,
        ⟨h.workers, h.started, h.going, fun _ => .inr (.inl rfl)⟩, fun hcon => by cases hcon⟩
  | escalate =>
    rw [step] at hstep
    split at hstep
    · cases hstep
    · rename_i hopen
      obtain rfl := Option.some_injective _ hstep
      obtain ⟨hmoves, hrest⟩ := escalateStop_spec h (by simpa using hopen)
      exact ⟨hmoves, hrest, fun hcon => by cases hcon⟩
  | testStart i fullName =>
    obtain ⟨hopen, w, hi, hmsg⟩ := step_worker (i := i) rfl hstep
    have hinv := h.workers w (List.mem_of_getElem? hi)
    rw [onMessage] at hmsg
    split at hmsg
    · obtain rfl := Option.some_injective _ hmsg
      exact .same h rfl
    · obtain rfl := Option.some_injective _ hmsg
      exact ⟨.single ⟨hopen, .note i w _ hi rfl rfl rfl⟩,
        h.setWorker hi ⟨hinv.busy, hinv.retired, hinv.inbox⟩ rfl rfl, fun hcon => by cases hcon⟩
  | testEnd i fullName =>
    obtain ⟨hopen, w, hi, hmsg⟩ := step_worker (i := i) rfl hstep
    have hinv := h.workers w (List.mem_of_getElem? hi)
    rw [onMessage] at hmsg
    split at hmsg
    · obtain rfl := Option.some_injective _ hmsg
      exact .same h rfl
    · -- the entry is changed, but it is the same file
      obtain rfl := Option.some_injective _ hmsg
      refine ⟨.single ⟨hopen, .note i w _ hi ?_ rfl rfl⟩, h.setWorker hi ⟨?_, ?_, ?_⟩ rfl rfl,
        fun hcon => by cases hcon⟩
      · cases w.currentFile <;> rfl
      · rw [hinv.busy]
        cases w.currentFile <;> rfl
      · intro hretired
        show Option.map _ w.currentFile = none
        rw [hinv.retired hretired]
        rfl
      · intro hlive
        refine (hinv.inbox hlive).trans ?_
        cases w.currentFile <;> rfl
  | fileDone i results durationMs =>
    obtain ⟨hopen, w, hi, hmsg⟩ := step_worker (i := i) rfl hstep
    have hinv := h.workers w (List.mem_of_getElem? hi)
    rw [onMessage] at hmsg
    split at hmsg
    · cases hmsg
    · rename_i entry rest hinbox
      dsimp only at hmsg
      split at hmsg
      · -- a late answer of a retired worker is not listened to
        rename_i hretired
        obtain rfl := Option.some_injective _ hmsg
        refine ⟨.single ⟨hopen, .note i w _ hi rfl rfl rfl⟩,
          h.setWorker hi ⟨hinv.busy, hinv.retired, fun hlive => ?_⟩ rfl rfl, fun hcon => ?_⟩
        · have hlive' : w.retired = false := hlive
          rw [hretired] at hlive'
          cases hlive'
        · rw [concludes, concludes_of_retired hi hretired] at hcon
          cases hcon
      · rename_i hlive
        obtain rfl := Option.some_injective _ hmsg
        obtain ⟨hmoves, hrest, hfalls⟩ := onFileDone_spec results durationMs
          (u := { w with process := { w.process with inbox := rest } }) h hopen hi
          (Bool.eq_false_iff.mpr hlive) hinbox rfl
        exact ⟨hmoves, hrest, fun _ => hfalls⟩
  | error i =>
    obtain ⟨hopen, w, hi, hmsg⟩ := step_worker (i := i) rfl hstep
    rw [onMessage] at hmsg
    split at hmsg
    · rename_i hretired
      obtain rfl := Option.some_injective _ hmsg
      exact .same h (concludes_of_retired hi hretired)
    · rename_i hlive
      obtain rfl := Option.some_injective _ hmsg
      obtain ⟨hpost, hgoing, hfalls⟩ := retireWorker_spec hi (Bool.eq_false_iff.mpr hlive)
        (fun j u hj _ => h.workers u (List.mem_of_getElem? hj)) hopen (h.started hopen)
        fun hbucket => (h.conserving hbucket).resolve_left (not_not.mpr hopen)
      exact ⟨hpost.moves, hpost.rest hgoing, fun _ => hfalls⟩
  | exit i =>
    obtain ⟨hopen, w, hi, hmsg⟩ := step_worker (i := i) rfl hstep
    have hinv := h.workers w (List.mem_of_getElem? hi)
    have hnote : Move ctx d
        (d.setWorker i { w with process := { connected := false, inbox := [] } }) :=
      .note i w _ hi rfl rfl rfl
    rw [onMessage] at hmsg
    split at hmsg
    · rename_i hretired
      obtain rfl := Option.some_injective _ hmsg
      have hrest := h.setWorker (u := { w with process := { connected := false, inbox := [] } }) hi
        ⟨hinv.busy, hinv.retired, fun hlive => by
          have hlive' : w.retired = false := hlive
          rw [hretired] at hlive'
          cases hlive'⟩ rfl rfl
      obtain ⟨hpost, hgoing⟩ := maybeResolve_spec (hrest.started hopen) hrest.workers
        hrest.conserving
      refine ⟨.trans (.single ⟨hopen, hnote⟩) hpost.moves, hpost.rest hgoing, fun hcon => ?_⟩
      rw [concludes, concludes_of_retired hi hretired] at hcon
      cases hcon
    · -- what it was sent is lost with it, so it is retired from where that is noted
      rename_i hlive
      obtain rfl := Option.some_injective _ hmsg
      have hlive' : w.retired = false := Bool.eq_false_iff.mpr hlive
      have hothers : ∀ (j : ℕ) (u : UIWorkerHandle), (d.setWorker i { w with
          process := { connected := false, inbox := [] } }).activeWorkers[j]? = some u →
            j ≠ i → u.Inv := fun j u hj hij =>
        h.workers u (List.mem_of_getElem? ((List.getElem?_set_ne (Ne.symm hij)).symm.trans hj))
      have hconserving : ctx.bucketByProject = none →
          (d.setWorker i { w with process := { connected := false, inbox := [] } }).Conserving :=
        fun hbucket =>
          ((h.conserving hbucket).resolve_left (not_not.mpr hopen)).setWorker hi rfl rfl
      have hset : (d.setWorker i { w with
          process := { connected := false, inbox := [] } }).activeWorkers[i]?
            = some { w with process := { connected := false, inbox := [] } } :=
        Move.getElem?_setWorker hi
      obtain ⟨hpost, hgoing, hfalls⟩ := retireWorker_spec hset hlive' hothers hopen
        (h.started hopen) hconserving
      exact ⟨.trans (.single ⟨hopen, hnote⟩) hpost.moves, hpost.rest hgoing,
        fun _ => hfalls.trans_le hnote.potential_le⟩
  | disconnect i =>
    obtain ⟨hopen, w, hi, hmsg⟩ := step_worker (i := i) rfl hstep
    have hinv := h.workers w (List.mem_of_getElem? hi)
    obtain rfl := Option.some_injective _ hmsg
    exact ⟨.single ⟨hopen, .note i w _ hi rfl rfl rfl⟩,
      h.setWorker hi ⟨hinv.busy, hinv.retired, hinv.inbox⟩ rfl rfl, fun hcon => by cases hcon⟩

end Dispatch

/-! ### The start -/

/-- A worker as the dispatch finds it. -/
structure UIWorkerHandle.Fresh (w : UIWorkerHandle) : Prop where
  live : w.retired = false
  idle : w.busy = false
  free : w.currentFile = none
  connected : w.process.connected = true
  waiting : w.process.inbox = []

theorem UIWorkerHandle.Fresh.inv (h : w.Fresh) : w.Inv :=
  ⟨by rw [h.idle, h.free]; rfl, fun _ => h.free, fun _ => by rw [h.waiting, h.free]; rfl⟩

/-- The dispatch while each worker is offered a file, and so many have been. -/
structure Dispatch.Starting (ctx : UIServerContext) (d₀ d : Dispatch) (k : ℕ) : Prop where
  moves : Moves ctx d₀ d
  workers : ∀ u ∈ d.activeWorkers, u.Inv
  fresh : ∀ (j : ℕ) (u : UIWorkerHandle), d.activeWorkers[j]? = some u → k ≤ j → u.Fresh
  unsettled : d.settled = none
  unstopped : d.parallelRunAborted = false
  starting : d.initialDispatchDone = false
  left : d.fileQueue = [] → d.allDone = false
  conserving : ctx.bucketByProject = none → d.fileQueue = [] ∨
    ∀ (j : ℕ) (u : UIWorkerHandle), d.activeWorkers[j]? = some u → j < k → u.busy = true

namespace Dispatch

/-- Whoever is retired in it, `dispatchNext` is one step first. -/
theorem dispatchWith_eq (ctx : UIServerContext) (live : ℕ) :
    ∃ retire, dispatchWith ctx live = dispatchStep ctx retire := by
  cases live with
  | zero => exact ⟨_, rfl⟩
  | succ live => exact ⟨_, rfl⟩

/-- **The next worker** is offered a file. -/
theorem Starting.next {d₀ : Dispatch} {k : ℕ} (h : Starting ctx d₀ d k)
    (hk : d.activeWorkers[k]? = some w) : Starting ctx d₀ (d.dispatchNext ctx k) (k + 1) := by
  have hfresh := h.fresh k w hk (le_refl k)
  obtain ⟨retire, hstep⟩ := dispatchWith_eq ctx d.remaining.length
  have hlive : ¬ (w.retired = true ∨ d.parallelRunAborted = true) := by
    rw [hfresh.live, h.unstopped]
    simp
  rw [dispatchNext, hstep, dispatchStep, hk]
  dsimp only
  rw [if_neg hlive]
  cases hnext : d.fileQueue.find? (serves ctx w) with
  | none =>
    -- it stays idle, and the promise is not settled: files wait, or an earlier worker has one
    dsimp only
    have hdone : (d.setIdle k w).allDone = d.allDone :=
      allDone_setWorker hk rfl hfresh.idle.symm
    have hopen : ¬ d.settled.isSome = true := by rw [h.unsettled]; exact Bool.noConfusion
    have hrunning : ¬ d.parallelRunAborted = true := by rw [h.unstopped]; exact Bool.noConfusion
    have hresolve : (d.setIdle k w).maybeResolve ctx = d.setIdle k w := by
      unfold maybeResolve
      rw [if_neg (show ¬ (d.setIdle k w).settled.isSome = true from hopen),
        if_neg (show ¬ (d.setIdle k w).parallelRunAborted = true from hrunning)]
      split
      · rw [if_pos (show (d.setIdle k w).initialDispatchDone = false from h.starting)]
      · rename_i hqueue
        rw [if_neg (by rw [hdone, h.left (not_not.mp hqueue)]; exact Bool.noConfusion)]
    have hinv : UIWorkerHandle.Inv
        { w with busy := false, currentFile := none, currentTest := none } :=
      ⟨rfl, fun _ => rfl, fun _ => congrArg (List.map Entry.id) hfresh.waiting⟩
    rw [hresolve]
    refine ⟨h.moves.tail ⟨h.unsettled, .idle k w hk hfresh.free⟩,
      forall_set (fun _ u hj _ => h.workers u (List.mem_of_getElem? hj)) hinv,
      fun j u hj hkj => ?_, h.unsettled, h.unstopped, h.starting,
      fun hqueue => hdone.trans (h.left hqueue),
      fun hbucket => .inl (fileQueue_eq_nil hbucket hnext)⟩
    have hne : k ≠ j := by omega
    exact h.fresh j u ((List.getElem?_set_ne hne).symm.trans hj) (by omega)
  | some next =>
    dsimp only
    rw [if_pos hfresh.connected]
    have hassigned : (d.assign ctx k w next).activeWorkers[k]? = some (taking w next) :=
      Move.getElem?_setWorker
        (d := { d with fileQueue := d.fileQueue.eraseP (serves ctx w) }) hk
    have hothers : ∀ (j : ℕ) (u : UIWorkerHandle),
        ((d.assign ctx k w next).send k (taking w next) next).activeWorkers[j]? = some u →
          j ≠ k → d.activeWorkers[j]? = some u := by
      intro j u hj hne
      rw [← hj]
      exact ((List.getElem?_set_ne (Ne.symm hne)).trans (List.getElem?_set_ne (Ne.symm hne))).symm
    have htaken : ((d.assign ctx k w next).send k (taking w next) next).activeWorkers[k]?
        = some { taking w next with process := { (taking w next).process with
          inbox := (taking w next).process.inbox ++ [next] } } :=
      Move.getElem?_setWorker
        (d := { d.assign ctx k w next with log := d.log ++ [.sent k next] }) hassigned
    refine ⟨h.moves.tail ⟨h.unsettled, .hand k w next hk hfresh.free hnext⟩, fun u hu => ?_,
      fun j u hj hkj => h.fresh j u (hothers j u hj (by omega)) (by omega), h.unsettled,
      h.unstopped, h.starting, fun _ => ?_, fun hbucket => .inr fun j u hj hjk => ?_⟩
    · obtain ⟨j, hj, rfl⟩ := List.getElem_of_mem hu
      have hj' := List.getElem?_eq_getElem hj
      by_cases hne : j = k
      · subst hne
        obtain heq := Option.some_injective _ (hj'.symm.trans htaken)
        rw [heq]
        refine ⟨rfl, fun hcon => ?_, fun _ => ?_⟩
        · have hretired : w.retired = true := hcon
          rw [hfresh.live] at hretired
          cases hretired
        · show (w.process.inbox ++ [next]).map Entry.id = [next.id]
          rw [hfresh.waiting]
          rfl
      · exact h.workers _ (List.mem_of_getElem? (hothers j _ hj' hne))
    · -- the worker that has just been handed a file is busy
      refine Bool.eq_false_iff.mpr fun hdone => ?_
      rcases allDone_iff.mp hdone _ (List.mem_of_getElem? htaken) with hcon | hcon
      · have hretired : w.retired = true := hcon
        rw [hfresh.live] at hretired
        cases hretired
      · cases hcon
    · rcases h.conserving hbucket with hqueue | hall
      · -- a file was found in the queue
        rw [hqueue] at hnext
        cases hnext
      · by_cases hne : j = k
        · subst hne
          rw [← Option.some_injective _ (htaken.symm.trans hj)]
          rfl
        · exact hall j u (hothers j u hj hne) (by omega)

/-- **Each worker in turn** is offered a file. -/
theorem Starting.range {d₀ : Dispatch} (h : Starting ctx d₀ d₀ 0) (k : ℕ)
    (hk : k ≤ d₀.activeWorkers.length) :
    Starting ctx d₀ ((List.range k).foldl (dispatchNext ctx) d₀) k := by
  induction k with
  | zero => exact h
  | succ k ih =>
    have hstarting := ih (by omega)
    have hlt : k < ((List.range k).foldl (dispatchNext ctx) d₀).activeWorkers.length := by
      rw [(Moves.onward hstarting.moves).length]
      omega
    rw [List.range_succ, List.foldl_append]
    exact hstarting.next (List.getElem?_eq_getElem hlt)

/-- **All have been offered one.** -/
theorem Starting.finish {d₀ : Dispatch} {k : ℕ} (h : Starting ctx d₀ d k)
    (hk : d.activeWorkers.length = k) :
    Moves ctx d₀ (maybeResolve ctx { d with initialDispatchDone := true }) ∧
      (maybeResolve ctx { d with initialDispatchDone := true }).Rest ctx := by
  have hmark : Move ctx d { d with initialDispatchDone := true } := .mark d.anyFailed true
  have hresolved : Post ctx { d with initialDispatchDone := true }
      (maybeResolve ctx { d with initialDispatchDone := true }) ∧
        (maybeResolve ctx { d with initialDispatchDone := true }).Going := by
    refine maybeResolve_spec rfl h.workers fun hbucket => .inr (.inr ?_)
    refine (h.conserving hbucket).imp id fun hall u hu => .inr ?_
    obtain ⟨j, hj, rfl⟩ := List.getElem_of_mem hu
    exact hall j _ (List.getElem?_eq_getElem hj) (hk ▸ hj)
  obtain ⟨hpost, hgoing⟩ := hresolved
  exact ⟨(h.moves.tail ⟨h.unsettled, hmark⟩).trans hpost.moves, hpost.rest hgoing⟩

/-- The queue may be set before or after. -/
theorem failUnservableFiles_setQueue {entries queue : List Entry} :
    failUnservableFiles ctx { d with fileQueue := queue } entries
      = { d.failUnservableFiles ctx entries with fileQueue := queue } := by
  induction entries generalizing d with
  | nil => rfl
  | cons e entries ih => exact ih (d := d.failUnservableFile ctx e)

theorem setQueue_self {queue : List Entry} (h : d.fileQueue = queue) :
    { d with fileQueue := queue } = d := by
  subst h
  rfl

/-- **There is no worker**: the files are failed, and the dispatch is settled. -/
theorem failAll_spec {queue : List Entry} (hqueue : d.fileQueue = [])
    (hworkers : d.activeWorkers = []) (hopen : d.settled = none) :
    Moves ctx { d with fileQueue := queue }
        { d.failUnservableFiles ctx queue with settled := some .resolved, anyFailed := true } ∧
      Rest ctx { d.failUnservableFiles ctx queue with
        settled := some .resolved, anyFailed := true } := by
  have hnil : ∀ d' : Dispatch, d'.activeWorkers = [] → ∀ u ∈ d'.activeWorkers,
      u.retired = true ∧ u.Inv := by
    intro d' hd' u hu
    rw [hd'] at hu
    exact absurd hu List.not_mem_nil
  have hempty : (d.failUnservableFiles ctx queue).activeWorkers = [] :=
    failUnservableFiles_activeWorkers.trans hworkers
  have hopen' : (d.failUnservableFiles ctx queue).settled = none :=
    failUnservableFiles_settled.trans hopen
  have hfail : Move ctx { d with fileQueue := queue } (d.failUnservableFiles ctx queue) := by
    have hmove : Move ctx { d with fileQueue := queue }
        { failUnservableFiles ctx { d with fileQueue := queue } queue with fileQueue := [] } :=
      .fail (allDone_iff.mpr fun u hu => .inl (hnil _ hworkers u hu).1)
        fun _ u hu => (hnil _ hworkers u hu).1
    rw [failUnservableFiles_setQueue] at hmove
    have hself : { d.failUnservableFiles ctx queue with fileQueue := [] }
        = d.failUnservableFiles ctx queue :=
      setQueue_self (failUnservableFiles_fileQueue.trans hqueue)
    exact hself ▸ hmove
  have hmark : Move ctx (d.failUnservableFiles ctx queue)
      { d.failUnservableFiles ctx queue with anyFailed := true } :=
    .mark true (d.failUnservableFiles ctx queue).initialDispatchDone
  have hsettle : Move ctx { d.failUnservableFiles ctx queue with anyFailed := true }
      { d.failUnservableFiles ctx queue with settled := some .resolved, anyFailed := true } :=
    .settle .resolved (allDone_iff.mpr fun u hu => .inl (hnil _ hempty u hu).1)
      (.inr (failUnservableFiles_fileQueue.trans hqueue))
  have hnone : some Settled.resolved ≠ none := Option.some_ne_none _
  exact ⟨.tail (.tail (.single ⟨hopen, hfail⟩) ⟨hopen', hmark⟩) ⟨hopen', hsettle⟩,
    fun u hu => (hnil _ hempty u hu).2, fun hcon => absurd hcon hnone, .inl hnone,
    fun _ => .inl hnone⟩

end Dispatch

section Start

variable {workers : List UIWorkerHandle} {files : List PlannedFile} {unavailable : List ℕ}

theorem entries_map_id : (entries files).map Entry.id = List.range files.length := by
  rw [entries, List.map_map, List.range_eq_range', ← List.zipIdx_map_snd 0 files]
  rfl

theorem entries_countP :
    (entries files).countP (·.id = id) = if id < files.length then 1 else 0 := by
  have hcount : (entries files).countP (·.id = id) = (List.range files.length).count id := by
    rw [← entries_map_id, List.count, List.countP_map]
    exact List.countP_congr fun e _ => by simp
  rw [hcount]
  split
  · rename_i hlt
    exact List.count_eq_one_of_mem List.nodup_range (List.mem_range.mpr hlt)
  · rename_i hnot
    exact List.count_eq_zero.mpr fun hmem => hnot (List.mem_range.mp hmem)

/-- The dispatch before a worker is offered anything. -/
def Dispatch.prepared (ctx : UIServerContext) (workers : List UIWorkerHandle)
    (files : List PlannedFile) (unavailable : List ℕ) : Dispatch :=
  { Dispatch.failUnservableFiles ctx { activeWorkers := workers, fileQueue := [] }
      ((entries files).filter (·.id ∈ unavailable)) with
    fileQueue := (entries files).filter (·.id ∉ unavailable) }

namespace Dispatch

theorem prepared_activeWorkers :
    (prepared ctx workers files unavailable).activeWorkers = workers :=
  failUnservableFiles_activeWorkers

theorem mem_prepared (h : w ∈ (prepared ctx workers files unavailable).activeWorkers) :
    w ∈ workers := by
  rwa [prepared_activeWorkers] at h

theorem prepared_settled : (prepared ctx workers files unavailable).settled = none :=
  failUnservableFiles_settled

/-- Fresh workers hold nothing. -/
theorem countP_fresh {p : UIWorkerHandle → Bool} (hfresh : ∀ w ∈ workers, w.Fresh)
    (hp : ∀ w : UIWorkerHandle, w.Fresh → p w = false) : workers.countP p = 0 :=
  List.countP_eq_zero.mpr fun w hw => by
    rw [hp w (hfresh w hw)]
    exact Bool.noConfusion

theorem prepared_places (hfresh : ∀ w ∈ workers, w.Fresh) :
    (prepared ctx workers files unavailable).places id = if id < files.length then 1 else 0 := by
  have hholds : workers.countP (·.holds id) = 0 :=
    countP_fresh hfresh fun w hw => Move.holds_of_none hw.free
  have hlog : (prepared ctx workers files unavailable).log.countP (·.settles id)
      = 0 + ((entries files).filter (·.id ∈ unavailable)).countP (·.id = id) :=
    failUnservableFiles_countP
  have hsplit := List.countP_eq_countP_filter_add (entries files)
    (fun e : Entry => decide (e.id = id)) (fun e => decide (e.id ∈ unavailable))
  have hqueue : (prepared ctx workers files unavailable).fileQueue
      = (entries files).filter fun e => !decide (e.id ∈ unavailable) :=
    List.filter_congr fun e _ => decide_not
  rw [places, prepared_activeWorkers, hholds, hlog, hqueue, ← entries_countP, hsplit]
  omega

theorem prepared_reached (hfresh : ∀ w ∈ workers, w.Fresh) :
    (prepared ctx workers files unavailable).Reached ctx workers files unavailable := by
  have hlog : (prepared ctx workers files unavailable).log
      = [] ++ ((entries files).filter (·.id ∈ unavailable)).map fun e =>
        .unservable e (failures ctx e) := failUnservableFiles_log
  have htotals : Totals { activeWorkers := workers, fileQueue := [] } := ⟨rfl, rfl, rfl⟩
  have hfailed : Totals (failUnservableFiles ctx { activeWorkers := workers, fileQueue := [] }
      ((entries files).filter (·.id ∈ unavailable))) := htotals.failUnservableFiles
  refine ⟨fun id => prepared_places hfresh, ⟨hfailed.passed, hfailed.failed, hfailed.skipped⟩,
    .of_eq prepared_activeWorkers, fun j entry hmem => ?_, fun _ entry n hmem => .inl ?_,
    fun hcon => absurd prepared_settled hcon⟩
  · rw [hlog] at hmem
    obtain ⟨e, -, heq⟩ := List.mem_map.mp hmem
    cases heq
  · rw [hlog] at hmem
    obtain ⟨e, he, heq⟩ := List.mem_map.mp hmem
    cases heq
    exact of_decide_eq_true (List.mem_filter.mp he).2

theorem prepared_allDone (hfresh : ∀ w ∈ workers, w.Fresh) :
    (prepared ctx workers files unavailable).allDone = true :=
  allDone_iff.mpr fun u hu => .inr (hfresh u (mem_prepared hu)).idle

/-- No more files are left to do than there are, and no more workers. -/
theorem prepared_potential (hfresh : ∀ w ∈ workers, w.Fresh) :
    (prepared ctx workers files unavailable).potential ≤ files.length + workers.length := by
  have hfree : workers.countP (fun w => w.currentFile.isSome) = 0 :=
    countP_fresh hfresh fun w hw => by rw [hw.free]; rfl
  have hlive : workers.countP (fun w => !w.retired) ≤ workers.length := List.countP_le_length
  have hqueue : (prepared ctx workers files unavailable).fileQueue.length ≤ files.length := by
    refine (List.length_filter_le _ _).trans_eq ?_
    rw [← List.length_map (f := Entry.id), entries_map_id, List.length_range]
  rw [potential, prepared_activeWorkers, hfree]
  omega

end Dispatch

/-- **The start** is made of moves, and leads to a dispatch that waits or is settled. -/
theorem dispatchFilesParallel_spec (ctx : UIServerContext) (files : List PlannedFile)
    (unavailable : List ℕ) (hfresh : ∀ w ∈ workers, w.Fresh) :
    Moves ctx (Dispatch.prepared ctx workers files unavailable)
        (dispatchFilesParallel ctx workers files unavailable) ∧
      (dispatchFilesParallel ctx workers files unavailable).Rest ctx := by
  have hopen : (Dispatch.prepared ctx workers files unavailable).settled = none :=
    Dispatch.prepared_settled
  have hnone : some Settled.resolved ≠ none := Option.some_ne_none _
  have hinv : ∀ u ∈ (Dispatch.prepared ctx workers files unavailable).activeWorkers, u.Inv :=
    fun u hu => (hfresh u (Dispatch.mem_prepared hu)).inv
  unfold dispatchFilesParallel
  dsimp only
  split
  · -- nothing to hand out
    rename_i hqueue
    have hprepared : Dispatch.prepared ctx workers files unavailable
        = Dispatch.failUnservableFiles ctx { activeWorkers := workers, fileQueue := [] }
          ((entries files).filter (·.id ∈ unavailable)) := by
      rw [Dispatch.prepared, hqueue]
      exact Dispatch.setQueue_self Dispatch.failUnservableFiles_fileQueue
    rw [← hprepared]
    exact ⟨.single ⟨hopen, .settle .resolved (Dispatch.prepared_allDone hfresh) (.inr hqueue)⟩,
      hinv, fun hcon => absurd hcon hnone, .inl hnone, fun _ => .inl hnone⟩
  · rename_i hqueue
    split
    · -- no worker at all
      rename_i hempty
      exact Dispatch.failAll_spec Dispatch.failUnservableFiles_fileQueue
        (Dispatch.failUnservableFiles_activeWorkers.trans hempty)
        Dispatch.failUnservableFiles_settled
    · have hlength : (Dispatch.prepared ctx workers files unavailable).activeWorkers.length
          = workers.length := by rw [Dispatch.prepared_activeWorkers]
      have hstart : Dispatch.Starting ctx (Dispatch.prepared ctx workers files unavailable)
          (Dispatch.prepared ctx workers files unavailable) 0 :=
        ⟨.refl, hinv, fun j u hj _ =>
          hfresh u (Dispatch.mem_prepared (List.mem_of_getElem? hj)), hopen,
          Dispatch.failUnservableFiles_parallelRunAborted,
          Dispatch.failUnservableFiles_initialDispatchDone, fun hcon => absurd hcon hqueue,
          fun _ => .inr fun j u _ hj => absurd hj (Nat.not_lt_zero j)⟩
      have hoffered := hstart.range workers.length hlength.ge
      exact hoffered.finish ((Moves.onward hoffered.moves).length.trans hlength)

end Start

/-! ### Runs -/

section Runs

variable {workers : List UIWorkerHandle} {files : List PlannedFile} {unavailable : List ℕ}
  {es : List (Dispatch.Op × Bool)}

theorem observe_spec {e : Dispatch.Op × Bool} (h : d.Rest ctx)
    (hstep : Steps (Dispatch.observe ctx) d e d') :
    Dispatch.Stepped ctx d e.1 d' ∧ e.2 = d.concludes e.1 := by
  obtain ⟨op, hop⟩ := hstep
  obtain ⟨d'', hd'', heq⟩ := Option.map_eq_some_iff.mp hop
  cases heq
  exact ⟨Dispatch.step_spec h hd'', rfl⟩

/-- **Every run** keeps the invariants. -/
theorem run_inv (hfresh : ∀ w ∈ workers, w.Fresh)
    (hrun : Run (Steps (Dispatch.observe ctx))
      (dispatchFilesParallel ctx workers files unavailable) es d) :
    d.Reached ctx workers files unavailable ∧ d.Rest ctx := by
  have hpres : ∀ (d : Dispatch) (e : Dispatch.Op × Bool) (d' : Dispatch),
      d.Reached ctx workers files unavailable ∧ d.Rest ctx → Steps (Dispatch.observe ctx) d e d' →
        d'.Reached ctx workers files unavailable ∧ d'.Rest ctx := by
    intro d e d' h hstep
    obtain ⟨hstepped, -⟩ := observe_spec h.2 hstep
    exact ⟨h.1.moves hstepped.moves, hstepped.rest⟩
  obtain ⟨hmoves, hrest⟩ := dispatchFilesParallel_spec ctx files unavailable hfresh
  have hinv := hrun.invariant hpres
  exact hinv ⟨(Dispatch.prepared_reached hfresh).moves hmoves, hrest⟩

/-- **What is left** falls with every worker that answers or is gone. -/
theorem run_potential (hfresh : ∀ w ∈ workers, w.Fresh)
    (hrun : Run (Steps (Dispatch.observe ctx))
      (dispatchFilesParallel ctx workers files unavailable) es d) :
    es.countP (·.2) + d.potential
      ≤ (dispatchFilesParallel ctx workers files unavailable).potential := by
  induction hrun with
  | nil => simp
  | @snoc es d d' e hrun hstep ih =>
    obtain ⟨hstepped, hshown⟩ := observe_spec (run_inv hfresh hrun).2 hstep
    have hle := Moves.potential_le hstepped.moves
    rw [List.countP_append, List.countP_singleton]
    split
    · rename_i hconcludes
      have hlt := hstepped.falls (hshown.symm.trans hconcludes)
      omega
    · omega

theorem holds_of_inbox (h : w.Inv) (hlive : w.retired = false)
    (hinbox : w.process.inbox.any (·.id = id) = true) : w.holds id = true := by
  obtain ⟨e, he, hid⟩ := List.any_eq_true.mp hinbox
  have hmem := List.mem_map_of_mem (f := Entry.id) he
  rw [h.inbox hlive] at hmem
  cases hfile : w.currentFile with
  | none =>
    rw [hfile] at hmem
    exact absurd hmem List.not_mem_nil
  | some e' =>
    rw [hfile] at hmem
    have heq : e.id = e'.id := List.mem_singleton.mp hmem
    rw [Move.holds_of_some hfile, ← heq]
    exact hid

/-- A worker that is done has no file. -/
theorem holds_of_allDone (h : d.Rest ctx) (hdone : d.allDone = true) :
    d.activeWorkers.countP (·.holds id) = 0 := by
  refine List.countP_eq_zero.mpr fun u hu => ?_
  have hfree : u.currentFile = none := by
    rcases Dispatch.allDone_iff.mp hdone u hu with hretired | hbusy
    · exact (h.workers u hu).retired hretired
    · rw [(h.workers u hu).busy] at hbusy
      exact Option.isNone_iff_eq_none.mp (by simpa using hbusy)
  rw [Move.holds_of_none hfree]
  exact Bool.noConfusion

/-- **No file is lost, and none is with two workers.**  Every file is in the queue, with one worker,
    or settled, once; where a run ends that was not stopped, each file is settled once.  A worker is
    sent only files of its bucket, and the counts are those of the files that are settled. -/
theorem dispatched_once (hfresh : ∀ w ∈ workers, w.Fresh)
    (hrun : Run (Steps (Dispatch.observe ctx))
      (dispatchFilesParallel ctx workers files unavailable) es d) :
    (∀ id, d.places id = if id < files.length then 1 else 0) ∧
    (∀ id, d.remaining.countP (fun w => w.process.inbox.any (·.id = id)) ≤ 1) ∧
    (∀ (j : ℕ) (entry : Entry), .sent j entry ∈ d.log →
      ∃ w, workers[j]? = some w ∧ Dispatch.serves ctx w entry = true) ∧
    (d.settled ≠ none → d.parallelRunAborted = false →
      ∀ id < files.length, d.log.countP (·.settles id) = 1) ∧
    d.Totals := by
  obtain ⟨hreached, hrest⟩ := run_inv hfresh hrun
  refine ⟨hreached.places, fun id => ?_, hreached.sent, fun hsettled hrunning id hid => ?_,
    hreached.totals⟩
  · -- a live worker that was sent the file has it
    have hle : d.remaining.countP (fun w => w.process.inbox.any (·.id = id))
        ≤ d.activeWorkers.countP (·.holds id) := by
      rw [Dispatch.remaining, List.countP_filter]
      refine List.countP_mono_left fun w hw hsent => ?_
      obtain ⟨hinbox, hlive⟩ := (Bool.and_eq_true _ _).mp hsent
      exact holds_of_inbox (hrest.workers w hw) (by simpa using hlive) hinbox
    have hplaces := hreached.places id
    rw [Dispatch.places] at hplaces
    split at hplaces <;> omega
  · -- neither the queue nor a worker has it, and it is in one place
    obtain ⟨hdone, hover⟩ := hreached.ended hsettled
    have hqueue := hover.resolve_left (by rw [hrunning]; exact Bool.noConfusion)
    have hplaces := hreached.places id
    rw [Dispatch.places, hqueue, holds_of_allDone hrest hdone, if_pos hid] at hplaces
    simpa using hplaces

theorem step_fileDone {entry : Entry} (results : List TestResult) (durationMs : ℕ)
    (hopen : d.settled = none) (hi : d.activeWorkers[i]? = some w) (hlive : w.retired = false)
    (hinbox : w.process.inbox = [entry]) :
    ∃ d', d.step ctx (.fileDone i results durationMs) = some d' := by
  have hstep : d.step ctx (.fileDone i results durationMs)
      = d.onMessage ctx i w (.fileDone i results durationMs) := by
    unfold Dispatch.step
    rw [if_neg (by rw [hopen]; exact Bool.noConfusion)]
    show d.activeWorkers[i]?.bind _ = _
    rw [hi]
    rfl
  rw [hstep, Dispatch.onMessage, hinbox]
  dsimp only
  rw [if_neg (by rw [hlive]; exact Bool.noConfusion)]
  exact ⟨_, rfl⟩

/-- **A dispatch comes to its end.**  No more workers answer or are lost than there are files and
    workers; and until it is settled a live worker has been sent a file, and may answer it.  Without
    buckets no live worker is idle while files wait. -/
theorem dispatch_settles (hfresh : ∀ w ∈ workers, w.Fresh)
    (hrun : Run (Steps (Dispatch.observe ctx))
      (dispatchFilesParallel ctx workers files unavailable) es d) :
    es.countP (·.2) ≤ files.length + workers.length ∧
    (d.settled = none →
      (∃ (i : ℕ) (w : UIWorkerHandle) (entry : Entry), d.activeWorkers[i]? = some w ∧
        w.retired = false ∧ w.process.inbox = [entry] ∧
        w.currentFile.map Entry.id = some entry.id ∧
        ∀ results durationMs, ∃ d', Dispatch.observe ctx d (.fileDone i results durationMs)
          = some (d', .fileDone i results durationMs, true)) ∧
      (ctx.bucketByProject = none → d.parallelRunAborted = false → d.fileQueue ≠ [] →
        ∀ w ∈ d.activeWorkers, w.retired = true ∨ w.busy = true)) := by
  obtain ⟨-, hrest⟩ := run_inv hfresh hrun
  refine ⟨?_, fun hopen => ⟨?_, fun hbucket hrunning hqueue => ?_⟩⟩
  · have hfalls := run_potential hfresh hrun
    obtain ⟨hmoves, -⟩ := dispatchFilesParallel_spec ctx files unavailable hfresh
    have hstart := (Moves.potential_le hmoves).trans (Dispatch.prepared_potential hfresh)
    omega
  · -- a worker that is not done has a file, and was sent just that
    have hgoing := hrest.going.resolve_left (not_not.mpr hopen)
    obtain ⟨u, hu, hwith⟩ := List.all_eq_false.mp hgoing
    obtain ⟨hlive, hbusy⟩ : u.retired = false ∧ u.busy = true := by simpa using hwith
    obtain ⟨j, hj, rfl⟩ := List.getElem_of_mem hu
    have hinv := hrest.workers _ hu
    rw [hinv.busy] at hbusy
    obtain ⟨e, hfile⟩ := Option.isSome_iff_exists.mp hbusy
    have hids := hinv.inbox hlive
    rw [hfile] at hids
    obtain ⟨entry, hentry, hid⟩ := List.map_eq_singleton_iff.mp hids
    have hj' := List.getElem?_eq_getElem hj
    refine ⟨j, _, entry, hj', hlive, hentry, ?_, fun results durationMs => ?_⟩
    · rw [hfile, hid]
      rfl
    · obtain ⟨d', hstep⟩ : ∃ d', d.step ctx (.fileDone j results durationMs) = some d' :=
        step_fileDone results durationMs hopen hj' hlive hentry
      have hconcludes : d.concludes (.fileDone j results durationMs) = true := by
        rw [Dispatch.concludes, hj']
        show (!d.activeWorkers[j].retired) = true
        rw [hlive]
        rfl
      refine ⟨d', ?_⟩
      rw [Dispatch.observe, hstep, hconcludes]
      rfl
  · rcases hrest.conserving hbucket with hcon | hcon | hcon | hcon
    · exact absurd hopen hcon
    · rw [hrunning] at hcon
      cases hcon
    · exact absurd hcon hqueue
    · exact hcon

/-- **Why a file is failed.**  Without buckets a file is failed without a worker only where its
    target could not start, or where no worker is left, and then the dispatch is over. -/
theorem failed_without_workers (hfresh : ∀ w ∈ workers, w.Fresh)
    (hrun : Run (Steps (Dispatch.observe ctx))
      (dispatchFilesParallel ctx workers files unavailable) es d)
    (hbucket : ctx.bucketByProject = none) {entry : Entry} {n : ℕ}
    (hfailed : .unservable entry n ∈ d.log) :
    entry.id ∈ unavailable ∨
      (∀ w ∈ d.activeWorkers, w.retired = true) ∧ d.settled ≠ none := by
  obtain ⟨hreached, hrest⟩ := run_inv hfresh hrun
  refine (hreached.unservable hbucket entry n hfailed).imp id fun hall => ⟨hall, ?_⟩
  -- without a worker the dispatch cannot wait
  refine hrest.going.resolve_right fun hgoing => ?_
  rw [Dispatch.allDone_of_remaining (Dispatch.remaining_eq_nil.mpr hall)] at hgoing
  cases hgoing

end Runs

/-! ### Two workers and three files -/

theorem fresh_replicate {n : ℕ} : ∀ w ∈ List.replicate n ({} : UIWorkerHandle), w.Fresh :=
  fun w hw => by
    rw [List.eq_of_mem_replicate hw]
    exact ⟨rfl, rfl, rfl, rfl, rfl⟩

/-- There is one target. -/
def oneTarget : UIServerContext where
  bucketByProject := none
  treeTestsOf _ := []
  grepExcludesRun _ := false

def threeFiles : List PlannedFile :=
  [{ filePath := "a.test.ts" }, { filePath := "b.test.ts" }, { filePath := "c.test.ts" }]

/-- The second worker dies, and the first one runs its file. -/
def replaced : List Dispatch.Op :=
  [.fileDone 0 [.passed] 3, .exit 1, .fileDone 0 [.failed false] 2, .fileDone 0 [.skipped] 1]

theorem dispatched_once_replaced : ∃ d es,
    exec (Dispatch.observe oneTarget)
      (dispatchFilesParallel oneTarget (List.replicate 2 {}) threeFiles []) replaced
        = some (d, es) ∧
    d.settled = some .resolved ∧ ∀ id < 3, d.log.countP (·.settles id) = 1 := by
  have hexec : (exec (Dispatch.observe oneTarget)
      (dispatchFilesParallel oneTarget (List.replicate 2 {}) threeFiles []) replaced).map
        (fun r => (r.1.settled, r.1.parallelRunAborted)) = some (some .resolved, false) := by
    decide +kernel
  obtain ⟨⟨d, es⟩, hd, heq⟩ := Option.map_eq_some_iff.mp hexec
  obtain ⟨hsettled, hrunning⟩ := Prod.mk.inj heq
  have hnone : d.settled ≠ none := by
    rw [hsettled]
    exact Option.some_ne_none _
  exact ⟨d, es, hd, hsettled,
    (dispatched_once fresh_replicate (exec_run hd)).2.2.2.1 hnone hrunning⟩

/-- With the second worker dead, the first one still has a file. -/
theorem dispatch_settles_replaced : ∃ d es,
    exec (Dispatch.observe oneTarget)
      (dispatchFilesParallel oneTarget (List.replicate 2 {}) threeFiles []) (replaced.take 2)
        = some (d, es) ∧
    es.countP (·.2) ≤ 5 ∧ ∃ (i : ℕ) (w : UIWorkerHandle) (entry : Entry),
      d.activeWorkers[i]? = some w ∧ w.retired = false ∧ w.process.inbox = [entry] := by
  have hexec : (exec (Dispatch.observe oneTarget)
      (dispatchFilesParallel oneTarget (List.replicate 2 {}) threeFiles []) (replaced.take 2)).map
        (fun r => r.1.settled) = some none := by
    decide +kernel
  obtain ⟨⟨d, es⟩, hd, hopen⟩ := Option.map_eq_some_iff.mp hexec
  obtain ⟨hcount, hwaits⟩ := dispatch_settles fresh_replicate (exec_run hd)
  obtain ⟨⟨i, w, entry, hi, hlive, hinbox, -⟩, -⟩ := hwaits hopen
  exact ⟨d, es, hd, hcount, i, w, entry, hi, hlive, hinbox⟩

/-- Both workers die, and the files are failed. -/
theorem failed_without_workers_dead : ∃ d es,
    exec (Dispatch.observe oneTarget)
      (dispatchFilesParallel oneTarget (List.replicate 2 {}) threeFiles []) [.exit 0, .exit 1]
        = some (d, es) ∧
    (∀ w ∈ d.activeWorkers, w.retired = true) ∧ d.settled ≠ none := by
  have hexec : (exec (Dispatch.observe oneTarget)
      (dispatchFilesParallel oneTarget (List.replicate 2 {}) threeFiles [])
      [.exit 0, .exit 1]).map (fun r => r.1.log.getLast?)
        = some (some (.unservable { id := 2, file := { filePath := "c.test.ts" } } 1)) := by
    decide +kernel
  obtain ⟨⟨d, es⟩, hd, hlast⟩ := Option.map_eq_some_iff.mp hexec
  exact ⟨d, es, hd, (failed_without_workers fresh_replicate (exec_run hd) rfl
    (List.mem_of_getLast? hlast)).resolve_left List.not_mem_nil⟩

end Tapsmith.RunAll.Parallel
