import BioFire.WorkerThreads

/-!
# Threads that nothing stops (`src/lib/protocol/pre_computation_engine.ts`)

`stop` clears `isRunning` at once and `this.workers` when its wait ends. A call of `start` between
the two is not refused, and its threads leave the list without a `STOP`.

* `Lifecycle`, `lifecycle_step`: what the events do to the list and to the threads told to stop;
* `orphan_run`: a thread that has left the list untold generates for ever;
* `orphan_iff`: the runs that leave such a thread.
-/

namespace BioFire.PreComputation

open Runs

/-! ## The lists that `start` and `stop` change -/

/-- The thread is alive and no `STOP` waits for it. -/
def WorkerThread.untold (thread : WorkerThread) : Bool :=
  thread.phase ≠ .exited && thread.inbox = 0

structure Lifecycle where
  isRunning : Bool
  stopping : ℕ
  workerCount : ℕ
  workers : List ℕ
  untold : List Bool

def PreSigning.lifecycle (s : PreSigning) : Lifecycle where
  isRunning := s.log.engine.isRunning
  stopping := s.log.engine.stopping
  workerCount := s.workerCount
  workers := s.workers
  untold := s.threads.map WorkerThread.untold

/-- What one event can do. -/
inductive LifecycleChange {q : ℤ} (l : Lifecycle) : SystemEvent q → Lifecycle → Prop
  | start (hstopped : l.isRunning = false) :
      LifecycleChange l .start { l with
        isRunning := true
        workers := l.workers ++ List.range' l.untold.length l.workerCount
        untold := l.untold ++ List.replicate l.workerCount true }
  | stop :
      LifecycleChange l .stop { l with
        isRunning := false
        stopping := l.stopping + 1
        untold := l.workers.foldl (fun untold i => untold.modify i fun _ => false) l.untold }
  | stopFinished (hwaits : 0 < l.stopping) :
      LifecycleChange l .stopFinished { l with stopping := l.stopping - 1, workers := [] }
  | quiet {event : SystemEvent q} (hstart : event = .start → l.isRunning = true)
      (hstop : event ≠ .stop) (hfinished : event = .stopFinished → l.stopping = 0) :
      LifecycleChange l event l

section

variable {G : Type} [AddCommGroup G] {curve : Curve G}

theorem step_running {state : EngineState} {event : EngineEvent}
    (h : event ≠ .start ∧ event ≠ .stop ∧ event ≠ .stopFinished) :
    (step curve state event).isRunning = state.isRunning ∧
      (step curve state event).stopping = state.stopping := by
  cases event with
  | start => exact absurd rfl h.1
  | stop => exact absurd rfl h.2.1
  | stopFinished => exact absurd rfl h.2.2
  | consumeTuple =>
    rw [step, PreComputation.consumeTuple]
    split
    · exact ⟨rfl, rfl⟩
    · exact ⟨rfl, rfl⟩
  | executeOnlineSign messageHash privateShare ref =>
    rw [step, PreComputation.executeOnlineSign]
    split
    · split
      · exact ⟨rfl, rfl⟩
      · exact ⟨rfl, rfl⟩
    · exact ⟨rfl, rfl⟩
  | ingestBatch batch =>
    rw [step, PreComputation.ingestBatch]
    split
    · exact ⟨rfl, rfl⟩
    · split
      · exact ⟨rfl, rfl⟩
      · obtain ⟨new, -, hnew⟩ := ingestLoop_eq state batch
        rw [hnew]
        exact ⟨rfl, rfl⟩

theorem untold_postStop (workers : List ℕ) (threads : List WorkerThread) :
    (workers.foldl (fun threads i => threads.modify i WorkerThread.postStop) threads).map
        WorkerThread.untold =
      workers.foldl (fun untold i => untold.modify i fun _ => false)
        (threads.map WorkerThread.untold) := by
  induction workers generalizing threads with
  | nil => rfl
  | cons worker workers ih =>
    rw [List.foldl_cons, List.foldl_cons, ih]
    congr 1
    apply List.ext_getElem?
    intro j
    rw [List.getElem?_map, List.getElem?_modify, List.getElem?_modify, List.getElem?_map]
    cases threads[j]? with
    | none => simp
    | some thread =>
      by_cases hj : worker = j
      · simp [hj, WorkerThread.postStop, WorkerThread.untold]
      · simp [hj]

theorem untold_handleStop (thread : WorkerThread) : thread.handleStop.untold = thread.untold := by
  rw [WorkerThread.handleStop]
  split
  next h => simp [WorkerThread.untold, Nat.pos_iff_ne_zero.mp h.2]
  next => rfl

variable [DecidableEq G] {compress : G → Bytes} {sha256 : Bytes → Digest}

theorem untold_generate (horder : curve.n ≤ 16 ^ 64) {thread : WorkerThread}
    (hphase : thread.phase ≠ .exited) (draws : Fin batchSize → TupleDraw curve.CURVE_ORDER) :
    (thread.generate curve compress sha256 draws).untold = thread.untold := by
  obtain ⟨batch, hbatch, -⟩ := @generateBatch_ok _ _ _ curve compress sha256 horder draws
  rw [WorkerThread.generate, hbatch]
  simp [WorkerThread.untold, hphase]

omit [DecidableEq G] in
variable (curve) in
theorem lifecycle_call (s : PreSigning) {event : EngineEvent}
    (h : event ≠ .start ∧ event ≠ .stop ∧ event ≠ .stopFinished) :
    (s.call curve event).lifecycle = s.lifecycle := by
  obtain ⟨hrunning, hstopping⟩ := @step_running _ _ curve s.log.engine event h
  rw [PreSigning.lifecycle, PreSigning.call, loggedStep, hrunning, hstopping]
  rfl

omit [DecidableEq G] in
theorem lifecycle_generateIn (s : PreSigning) {phase : WorkerPhase} {worker : ℕ}
    {draws : Fin batchSize → TupleDraw curve.CURVE_ORDER} {generate : WorkerThread → WorkerThread}
    (h : ∀ thread, thread.phase = phase → (generate thread).untold = thread.untold) :
    (s.generateIn curve phase worker draws generate).lifecycle = s.lifecycle := by
  rw [PreSigning.generateIn]
  split
  · rfl
  next thread hthread =>
    split
    next hphase =>
      rw [PreSigning.lifecycle, map_set_eq hthread (h thread hphase)]
      rfl
    · rfl

omit [DecidableEq G] in
theorem lifecycle_deliver (s : PreSigning) (worker : ℕ) :
    (s.deliver curve worker).lifecycle = s.lifecycle := by
  rw [PreSigning.deliver]
  split
  · rfl
  next thread hthread =>
    split
    · rfl
    next message rest _ =>
      have huntold : (s.threads.set worker { thread with outbox := rest }).map
          WorkerThread.untold = s.threads.map WorkerThread.untold := map_set_eq hthread rfl
      have hsame : ({ s with
          threads := s.threads.set worker { thread with outbox := rest } } :
            PreSigning).lifecycle = s.lifecycle := by
        rw [PreSigning.lifecycle, huntold]
        rfl
      cases message with
      | TUPLE_BATCH batch => exact (lifecycle_call curve _ (by simp)).trans hsame
      | WORKER_READY | WORKER_STOPPED => exact hsame

/-- **One event.** -/
theorem lifecycle_step (horder : curve.n ≤ 16 ^ 64) (s : PreSigning)
    (event : SystemEvent curve.CURVE_ORDER) :
    LifecycleChange s.lifecycle event (s.step curve compress sha256 event).lifecycle := by
  have hquiet : ∀ {s' : PreSigning}, s'.lifecycle = s.lifecycle →
      (event = .start → s.lifecycle.isRunning = true) → event ≠ .stop →
      (event = .stopFinished → s.lifecycle.stopping = 0) →
      LifecycleChange s.lifecycle event s'.lifecycle := by
    intro s' hsame hstart hstop hfinished
    rw [hsame]
    exact .quiet hstart hstop hfinished
  cases event with
  | start =>
    rw [PreSigning.step, PreSigning.start]
    cases hrunning : s.log.engine.isRunning with
    | true => exact hquiet rfl (fun _ => hrunning) (by simp) (by simp)
    | false =>
      have hlength : s.threads.length = s.lifecycle.untold.length := (List.length_map _).symm
      have hnew : ({ s.call curve .start with
          workers := s.workers ++ List.range' s.threads.length s.workerCount
          threads := s.threads ++ List.replicate s.workerCount newWorker } : PreSigning).lifecycle =
          { s.lifecycle with
            isRunning := true
            workers := s.workers ++ List.range' s.lifecycle.untold.length s.workerCount
            untold := s.lifecycle.untold ++ List.replicate s.workerCount true } := by
        rw [PreSigning.lifecycle, List.map_append, List.map_replicate, hlength]
        rfl
      rw [if_neg (by simp), hnew]
      exact .start hrunning
  | stop =>
    have hnew : (s.stop curve).lifecycle = { s.lifecycle with
        isRunning := false
        stopping := s.lifecycle.stopping + 1
        untold := s.workers.foldl (fun untold i => untold.modify i fun _ => false)
          s.lifecycle.untold } := by
      rw [PreSigning.lifecycle, PreSigning.stop, untold_postStop]
      rfl
    rw [PreSigning.step, hnew]
    exact .stop
  | stopFinished =>
    rw [PreSigning.step, PreSigning.stopFinished]
    split
    next hwaits =>
      have hnew : ({ s.call curve .stopFinished with workers := [] } : PreSigning).lifecycle =
          { s.lifecycle with stopping := s.lifecycle.stopping - 1, workers := [] } := by
        rw [PreSigning.lifecycle, PreSigning.call, loggedStep, step, PreComputation.stopFinished,
          if_pos hwaits]
        rfl
      rw [hnew]
      exact .stopFinished hwaits
    next hnone => exact hquiet rfl (by simp) (by simp) fun _ => Nat.eq_zero_of_not_pos hnone
  | consumeTuple =>
    exact hquiet (lifecycle_call curve s (by simp)) (by simp) (by simp) (by simp)
  | executeOnlineSign messageHash privateShare ref =>
    exact hquiet (lifecycle_call curve s (by simp)) (by simp) (by simp) (by simp)
  | boot worker draws =>
    refine hquiet (lifecycle_generateIn s fun thread hphase => ?_) (by simp) (by simp) (by simp)
    rw [WorkerThread.boot, untold_generate horder (by rw [hphase]; simp)]
    rfl
  | tick worker draws =>
    refine hquiet (lifecycle_generateIn s fun thread hphase => ?_) (by simp) (by simp) (by simp)
    exact untold_generate horder (by rw [hphase]; simp) draws
  | handleStop worker =>
    refine hquiet ?_ (by simp) (by simp) (by simp)
    rw [PreSigning.step, PreSigning.lifecycle, map_modify_eq untold_handleStop]
    rfl
  | deliver worker => exact hquiet (lifecycle_deliver s worker) (by simp) (by simp) (by simp)

end

/-! ## Threads that left the list -/

/-- The thread is alive, no `STOP` waits for it, and no later `stop` posts one to it. -/
def Lifecycle.Orphan (l : Lifecycle) (i : ℕ) : Prop :=
  l.untold[i]? = some true ∧ i ∉ l.workers

/-- The list will be cleared with the thread in it. -/
def Lifecycle.Trapped (l : Lifecycle) (i : ℕ) : Prop :=
  l.untold[i]? = some true ∧ i ∈ l.workers ∧ 0 < l.stopping

theorem getElem?_told (workers : List ℕ) (untold : List Bool) (i : ℕ) :
    (workers.foldl (fun untold i => untold.modify i fun _ => false) untold)[i]? = some true ↔
      untold[i]? = some true ∧ i ∉ workers := by
  induction workers generalizing untold with
  | nil => simp
  | cons worker workers ih =>
    rw [List.foldl_cons, ih, List.getElem?_modify]
    by_cases hworker : worker = i
    · simp [hworker]
    · simp [hworker, Ne.symm hworker]

theorem lt_of_untold {l : Lifecycle} {i : ℕ} (h : l.untold[i]? = some true) :
    i < l.untold.length :=
  (List.getElem?_eq_some_iff.mp h).1

theorem LifecycleChange.orphan {q : ℤ} {l l' : Lifecycle} {event : SystemEvent q} {i : ℕ}
    (h : LifecycleChange l event l') (horphan : l.Orphan i) : l'.Orphan i := by
  obtain ⟨huntold, hnot⟩ := horphan
  cases h with
  | start =>
    refine ⟨?_, ?_⟩
    · rw [List.getElem?_append_left (lt_of_untold huntold)]
      exact huntold
    · rw [List.mem_append, List.mem_range'_1]
      have hlt := lt_of_untold huntold
      rintro (hmem | hnew)
      · exact hnot hmem
      · omega
  | stop => exact ⟨(getElem?_told _ _ _).mpr ⟨huntold, hnot⟩, hnot⟩
  | stopFinished => exact ⟨huntold, List.not_mem_nil⟩
  | quiet => exact ⟨huntold, hnot⟩

/-- A thread in a list that will be cleared stays in it until then. -/
theorem LifecycleChange.trapped {q : ℤ} {l l' : Lifecycle} {event : SystemEvent q} {i : ℕ}
    (h : LifecycleChange l event l') (htrapped : l.Trapped i) (hstop : event ≠ .stop) :
    l'.Orphan i ∨ event ≠ .stopFinished ∧ l'.Trapped i := by
  obtain ⟨huntold, hmem, hwaits⟩ := htrapped
  cases h with
  | start =>
    refine Or.inr ⟨by simp, ?_, List.mem_append_left _ hmem, hwaits⟩
    rw [List.getElem?_append_left (lt_of_untold huntold)]
    exact huntold
  | stop => exact absurd rfl hstop
  | stopFinished => exact Or.inl ⟨huntold, List.not_mem_nil⟩
  | quiet _ _ hfinished =>
    exact Or.inr ⟨fun heq => hwaits.ne' (hfinished heq), huntold, hmem, hwaits⟩

section

variable {G : Type} [AddCommGroup G] [DecidableEq G] (curve : Curve G) (compress : G → Bytes)
  (sha256 : Bytes → Digest)

/-- `start` is called on a stopped engine while a `stop` waits, and a wait ends before `stop` is
called again. -/
def StartsTooEarly (start : PreSigning) (events : List (SystemEvent curve.CURVE_ORDER)) : Prop :=
  ∃ past mid rest, events = past ++ .start :: (mid ++ .stopFinished :: rest) ∧ .stop ∉ mid ∧
    (run (PreSigning.step curve compress sha256) start past).lifecycle.isRunning = false ∧
    0 < (run (PreSigning.step curve compress sha256) start past).lifecycle.stopping

variable {curve compress sha256}

theorem StartsTooEarly.concat {start : PreSigning}
    {events : List (SystemEvent curve.CURVE_ORDER)}
    (h : StartsTooEarly curve compress sha256 start events)
    (event : SystemEvent curve.CURVE_ORDER) :
    StartsTooEarly curve compress sha256 start (events ++ [event]) := by
  obtain ⟨past, mid, rest, rfl, hstop, hrunning, hwaits⟩ := h
  exact ⟨past, mid, rest ++ [event], by simp, hstop, hrunning, hwaits⟩

/-- A thread with this lifecycle was started on a stopped engine, and `stop` was not called
since. -/
def StartedSince (curve : Curve G) (compress : G → Bytes) (sha256 : Bytes → Digest)
    (start : PreSigning) (events : List (SystemEvent curve.CURVE_ORDER)) (l : Lifecycle) : Prop :=
  0 < l.workerCount ∧ ∃ past mid, events = past ++ .start :: mid ∧ .stop ∉ mid ∧
    (run (PreSigning.step curve compress sha256) start past).lifecycle.isRunning = false ∧
    l.stopping ≤ (run (PreSigning.step curve compress sha256) start past).lifecycle.stopping

theorem StartedSince.concat {start : PreSigning} {events : List (SystemEvent curve.CURVE_ORDER)}
    {l l' : Lifecycle} (h : StartedSince curve compress sha256 start events l)
    {event : SystemEvent curve.CURVE_ORDER} (hstop : event ≠ .stop)
    (hcount : l'.workerCount = l.workerCount) (hstopping : l'.stopping ≤ l.stopping) :
    StartedSince curve compress sha256 start (events ++ [event]) l' := by
  obtain ⟨hpos, past, mid, rfl, hmid, hrunning, hle⟩ := h
  refine ⟨hcount ▸ hpos, past, mid ++ [event], by simp, ?_, hrunning, hstopping.trans hle⟩
  simpa [hmid] using hstop.symm

/-- What the run tells about the threads that no `STOP` waits for. -/
structure Explained (curve : Curve G) (compress : G → Bytes) (sha256 : Bytes → Digest)
    (start : PreSigning) (events : List (SystemEvent curve.CURVE_ORDER)) (l : Lifecycle) :
    Prop where
  bounded : ∀ i ∈ l.workers, i < l.untold.length
  listed : ∀ i ∈ l.workers, l.untold[i]? = some true →
    StartedSince curve compress sha256 start events l
  orphan : ∀ i, l.Orphan i →
    0 < l.workerCount ∧ StartsTooEarly curve compress sha256 start events

/-- **Step.** A thread leaves the list untold only when a wait ends behind its start. -/
theorem Explained.step {start : PreSigning} {events : List (SystemEvent curve.CURVE_ORDER)}
    (h : Explained curve compress sha256 start events
      (run (PreSigning.step curve compress sha256) start events).lifecycle)
    {event : SystemEvent curve.CURVE_ORDER} {l : Lifecycle}
    (hchange : LifecycleChange
      (run (PreSigning.step curve compress sha256) start events).lifecycle event l) :
    Explained curve compress sha256 start (events ++ [event]) l := by
  obtain ⟨hbounded, hlisted, horphan⟩ := h
  cases hchange with
  | start hstopped =>
    refine ⟨fun i hmem => ?_, fun i hmem huntold => ?_, fun i hi => ?_⟩
    · rw [List.length_append, List.length_replicate]
      rcases List.mem_append.mp hmem with hold | hnew
      · exact (hbounded i hold).trans_le (Nat.le_add_right _ _)
      · exact (List.mem_range'_1.mp hnew).2
    · rcases List.mem_append.mp hmem with hold | hnew
      · rw [List.getElem?_append_left (hbounded i hold)] at huntold
        exact (hlisted i hold huntold).concat (by simp) rfl le_rfl
      · have hpos := List.mem_range'_1.mp hnew
        exact ⟨Nat.pos_of_lt_add_right (hpos.1.trans_lt hpos.2), events, [], rfl,
          List.not_mem_nil, hstopped, le_rfl⟩
    · obtain ⟨huntold, hnot⟩ := hi
      rw [List.mem_append, List.mem_range'_1, not_or] at hnot
      have hlt := (List.getElem?_eq_some_iff.mp huntold).1
      rw [List.length_append, List.length_replicate] at hlt
      have hold : i < _ := Nat.lt_of_not_le fun hge => hnot.2 ⟨hge, hlt⟩
      rw [List.getElem?_append_left hold] at huntold
      exact (horphan i ⟨huntold, hnot.1⟩).imp_right (StartsTooEarly.concat · _)
  | stop =>
    refine ⟨fun i hmem => ?_, fun i hmem huntold => ?_, fun i hi => ?_⟩
    · have hlength : ∀ (workers : List ℕ) (untold : List Bool),
          (workers.foldl (fun untold i => untold.modify i fun _ => false) untold).length =
            untold.length := by
        intro workers
        induction workers with
        | nil => exact fun _ => rfl
        | cons worker workers ih =>
          intro untold
          rw [List.foldl_cons, ih, List.length_modify]
      rw [hlength]
      exact hbounded i hmem
    · exact absurd hmem ((getElem?_told _ _ _).mp huntold).2
    · obtain ⟨huntold, hnot⟩ := hi
      exact (horphan i ⟨((getElem?_told _ _ _).mp huntold).1, hnot⟩).imp_right
        (StartsTooEarly.concat · _)
  | stopFinished hwaits =>
    refine ⟨fun i hmem => absurd hmem List.not_mem_nil,
      fun i hmem => absurd hmem List.not_mem_nil, fun i hi => ?_⟩
    by_cases hmem : i ∈ (run (PreSigning.step curve compress sha256) start events).lifecycle.workers
    · obtain ⟨hpos, past, mid, hcut, hmid, hrunning, hle⟩ := hlisted i hmem hi.1
      exact ⟨hpos, past, mid, [], by rw [hcut]; simp, hmid, hrunning, hwaits.trans_le hle⟩
    · exact (horphan i ⟨hi.1, hmem⟩).imp_right (StartsTooEarly.concat · _)
  | quiet hstart hstop hfinished =>
    exact ⟨hbounded, fun i hmem huntold => (hlisted i hmem huntold).concat hstop rfl le_rfl,
      fun i hi => (horphan i hi).imp_right (StartsTooEarly.concat · _)⟩

theorem lifecycle_workerCount {q : ℤ} {l l' : Lifecycle} {event : SystemEvent q}
    (h : LifecycleChange l event l') : l'.workerCount = l.workerCount := by
  cases h with
  | start | stop | stopFinished | quiet => rfl

theorem orphan_run (horder : curve.n ≤ 16 ^ 64) {s : PreSigning} {i : ℕ}
    (h : s.lifecycle.Orphan i) (events : List (SystemEvent curve.CURVE_ORDER)) :
    (run (PreSigning.step curve compress sha256) s events).lifecycle.Orphan i :=
  run_invariant (fun s : PreSigning => s.lifecycle.Orphan i) h
    (fun s event hi => (lifecycle_step horder s event).orphan hi) events

/-- The threads of a call that is too early leave the list untold. -/
theorem orphan_of_trapped (horder : curve.n ≤ 16 ^ 64) {s : PreSigning} {i : ℕ}
    (h : s.lifecycle.Trapped i) {mid : List (SystemEvent curve.CURVE_ORDER)} (hmid : .stop ∉ mid) :
    (run (PreSigning.step curve compress sha256) s (mid ++ [.stopFinished])).lifecycle.Orphan i := by
  induction mid generalizing s with
  | nil =>
    rcases (@lifecycle_step _ _ curve _ compress sha256 horder s .stopFinished).trapped h
      (by simp) with horphan | ⟨hne, -⟩
    · exact horphan
    · exact absurd rfl hne
  | cons event mid ih =>
    rw [List.mem_cons, not_or] at hmid
    obtain ⟨hfirst, hrest⟩ := hmid
    rcases (@lifecycle_step _ _ curve _ compress sha256 horder s event).trapped h
      (Ne.symm hfirst) with horphan | ⟨-, htrapped⟩
    · exact orphan_run horder horphan _
    · exact ih htrapped hrest

/-- **Runs.** A thread is left that no later event tells to stop exactly when `start` is called
on a stopped engine while a `stop` waits, and the wait ends before the next `stop`. -/
theorem orphan_iff (horder : curve.n ≤ 16 ^ 64) (config : PreComputationConfig) (workerCount : ℕ)
    (events : List (SystemEvent curve.CURVE_ORDER)) :
    (∃ i, ∀ later, (run (PreSigning.step curve compress sha256) (newPreSigning config workerCount)
        (events ++ later)).lifecycle.Orphan i) ↔
      0 < workerCount ∧
        StartsTooEarly curve compress sha256 (newPreSigning config workerCount) events := by
  have hcount : ∀ events, (run (PreSigning.step curve compress sha256)
      (newPreSigning config workerCount) events).lifecycle.workerCount = workerCount := fun events =>
    run_invariant (fun s : PreSigning => s.lifecycle.workerCount = workerCount) rfl
      (fun s event h => (lifecycle_workerCount (lifecycle_step horder s event)).trans h) events
  constructor
  · rintro ⟨i, horphan⟩
    have hexplained : ∀ events, Explained curve compress sha256 (newPreSigning config workerCount)
        events (run (PreSigning.step curve compress sha256) (newPreSigning config workerCount)
          events).lifecycle := by
      intro events
      induction events using List.reverseRecOn with
      | nil =>
        exact ⟨fun i hmem => absurd hmem List.not_mem_nil, fun i hmem => absurd hmem
          List.not_mem_nil, fun i hi => absurd hi.1 (by simp [newPreSigning, PreSigning.lifecycle])⟩
      | append_singleton events event ih =>
        rw [run_concat]
        exact ih.step (lifecycle_step horder _ event)
    have hend := horphan []
    rw [List.append_nil] at hend
    have h := (hexplained events).orphan i hend
    rwa [hcount] at h
  · rintro ⟨hpos, past, mid, rest, rfl, hmid, hrunning, hwaits⟩
    let s := run (PreSigning.step curve compress sha256) (newPreSigning config workerCount) past
    have hstep := @lifecycle_step _ _ curve _ compress sha256 horder s .start
    have htrapped : (s.step curve compress sha256 .start).lifecycle.Trapped
        s.lifecycle.untold.length := by
      generalize (s.step curve compress sha256 .start).lifecycle = l at hstep
      cases hstep with
      | start =>
        refine ⟨?_, ?_, hwaits⟩
        · simp [s, hcount past, hpos]
        · simp [s, hcount past, hpos]
      | quiet hstart => exact absurd (hstart rfl) (by rw [hrunning]; simp)
    refine ⟨s.lifecycle.untold.length, fun later => ?_⟩
    have hcut : past ++ .start :: (mid ++ .stopFinished :: rest) ++ later =
        (past ++ [.start]) ++ (mid ++ [.stopFinished]) ++ (rest ++ later) := by simp
    have hfirst : run (PreSigning.step curve compress sha256) (newPreSigning config workerCount)
        (past ++ [.start]) = s.step curve compress sha256 .start := run_concat _ _
    have hcleared : run (PreSigning.step curve compress sha256) (newPreSigning config workerCount)
        ((past ++ [.start]) ++ (mid ++ [.stopFinished])) =
          run (PreSigning.step curve compress sha256) (s.step curve compress sha256 .start)
            (mid ++ [.stopFinished]) := (run_append _ _).trans (by rw [hfirst])
    rw [hcut, run_append, hcleared]
    exact orphan_run horder (orphan_of_trapped horder htrapped hmid) _

end

/-- An engine is restarted before its `stop` has ended. -/
theorem orphan_iff_restart : ∃ i, ∀ later,
    (run (PreSigning.step Curve.curve43 (fun _ => [2]) fun _ => zeroDigest)
      (newPreSigning ⟨.ofInt 5000⟩ 4)
      ([.start, .stop, .start, .stopFinished] ++ later)).lifecycle.Orphan i :=
  (orphan_iff (by decide) ⟨.ofInt 5000⟩ 4 [.start, .stop, .start, .stopFinished]).mpr
    ⟨by decide, [.start, .stop], [], [], rfl, List.not_mem_nil, by decide, by decide⟩

end BioFire.PreComputation
