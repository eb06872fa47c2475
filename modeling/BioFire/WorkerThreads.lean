import BioFire.FastPath
import BioFire.SecureRandom
import BioFire.TupleQueue
import Mathlib.Algebra.BigOperators.Group.List.Basic
import Mathlib.Algebra.Order.Group.Multiset

/-!
# The threads of a pre-computation engine

`PreComputationEngine` of `src/lib/protocol/pre_computation_engine.ts` and the threads that run
`src/lib/protocol/signing_worker.ts`. A thread and the engine share messages only; each posts in
order, and the main thread handles the messages of different threads in any order. `stop` waits
for its workers or for a timeout, so its second half comes at any time after the first.

* `Accounted`, `accounted_step`: what is on its way and what is ingested has been drawn;
* `signedOnce_call`: a new signature uses up a tuple of its own;
* `signed_le_drawn`: over every run, the nonces of the returned signatures are among the drawn
  scalars, each at most as often as it was drawn.
-/

namespace BioFire.PreComputation

open Runs

/-! ## Threads -/

inductive WorkerMessage where
  | WORKER_READY
  | TUPLE_BATCH (batch : List PreSignatureTuple)
  | WORKER_STOPPED

inductive WorkerPhase where
  /-- The module is loading. -/
  | starting
  | running
  | exited
  deriving DecidableEq

/-- A worker thread and its port. -/
structure WorkerThread where
  phase : WorkerPhase
  /-- The number of `STOP` messages that wait for it. -/
  inbox : ℕ
  /-- What it has posted, up to the first message that was not handled. -/
  outbox : List WorkerMessage

def newWorker : WorkerThread := ⟨.starting, 0, []⟩

/-- The default of `workerMain`, which the module calls with 10: `workerData` is not read. -/
def batchSize : ℕ := 10

/-- What a call of `generateTuple` draws. -/
structure TupleDraw (q : ℤ) where
  k : Scalar q
  now : ℤ
  timestamp : ℤ

section Step

variable {G : Type} [AddCommGroup G] [DecidableEq G] (curve : Curve G) (compress : G → Bytes)
  (sha256 : Bytes → Digest)

def generateBatch (draws : Fin batchSize → TupleDraw curve.CURVE_ORDER) :
    Except JSError (List PreSignatureTuple) :=
  (List.ofFn draws).mapM fun draw =>
    generateTuple curve compress sha256 draw.k.1 draw.now draw.timestamp

/-- The callback of the interval. An error ends the thread. -/
def WorkerThread.generate (thread : WorkerThread)
    (draws : Fin batchSize → TupleDraw curve.CURVE_ORDER) : WorkerThread :=
  match generateBatch curve compress sha256 draws with
  | .error _ => { thread with phase := .exited }
  | .ok batch =>
    { thread with phase := .running, outbox := thread.outbox ++ [.TUPLE_BATCH batch] }

/-- `workerMain`, up to the interval. -/
def WorkerThread.boot (thread : WorkerThread)
    (draws : Fin batchSize → TupleDraw curve.CURVE_ORDER) : WorkerThread :=
  WorkerThread.generate curve compress sha256
    { thread with outbox := thread.outbox ++ [.WORKER_READY] } draws

/-- The handler of `STOP`. -/
def WorkerThread.handleStop (thread : WorkerThread) : WorkerThread :=
  if thread.phase = .running ∧ 0 < thread.inbox then
    ⟨.exited, thread.inbox - 1, thread.outbox ++ [.WORKER_STOPPED]⟩
  else thread

def WorkerThread.postStop (thread : WorkerThread) : WorkerThread :=
  { thread with inbox := thread.inbox + 1 }

/-! ## The engine and its threads -/

structure PreSigning where
  log : LoggedEngine
  workerCount : ℕ
  /-- `this.workers`, as positions in `threads`. -/
  workers : List ℕ
  threads : List WorkerThread
  /-- The scalars that the threads have drawn. -/
  drawn : List ℤ
  /-- The nonces of the signatures that `executeOnlineSign` has returned. -/
  signed : List ℤ

def newPreSigning (config : PreComputationConfig) (workerCount : ℕ) : PreSigning :=
  ⟨newLog config, workerCount, [], [], [], []⟩

inductive SystemEvent (q : ℤ) where
  | start
  | stop
  | stopFinished
  | consumeTuple
  | executeOnlineSign (messageHash : Bytes) (privateShare : SecureBigInt) (ref : ℕ)
  /-- The module of a thread has loaded. -/
  | boot (worker : ℕ) (draws : Fin batchSize → TupleDraw q)
  /-- The interval of a thread. -/
  | tick (worker : ℕ) (draws : Fin batchSize → TupleDraw q)
  | handleStop (worker : ℕ)
  /-- The main thread handles the next message of a thread. -/
  | deliver (worker : ℕ)

/-- The nonce of a call that returns a signature. -/
def nonceSigned (state : EngineState) : EngineEvent → List ℤ
  | .executeOnlineSign messageHash privateShare ref =>
    match (executeOnlineSign curve state messageHash privateShare ref).2, state.tuples[ref]? with
    | some (.ok _), some tuple => tuple.k.value.toOption.toList
    | _, _ => []
  | _ => []

/-- A call on the engine. -/
def PreSigning.call (s : PreSigning) (event : EngineEvent) : PreSigning :=
  { s with
    log := loggedStep curve s.log event
    signed := s.signed ++ nonceSigned curve s.log.engine event }

/-- `start` -/
def PreSigning.start (s : PreSigning) : PreSigning :=
  if s.log.engine.isRunning then s
  else
    { s.call curve .start with
      workers := s.workers ++ List.range' s.threads.length s.workerCount
      threads := s.threads ++ List.replicate s.workerCount newWorker }

/-- `stop` up to its wait. -/
def PreSigning.stop (s : PreSigning) : PreSigning :=
  { s.call curve .stop with
    threads := s.workers.foldl (fun threads i => threads.modify i WorkerThread.postStop) s.threads }

/-- `stop` after its wait. -/
def PreSigning.stopFinished (s : PreSigning) : PreSigning :=
  if 0 < s.log.engine.stopping then { s.call curve .stopFinished with workers := [] } else s

/-- A thread in this phase draws and generates. -/
def PreSigning.generateIn (s : PreSigning) (phase : WorkerPhase) (worker : ℕ)
    (draws : Fin batchSize → TupleDraw curve.CURVE_ORDER)
    (generate : WorkerThread → WorkerThread) : PreSigning :=
  match s.threads[worker]? with
  | none => s
  | some thread =>
    if thread.phase = phase then
      { s with
        threads := s.threads.set worker (generate thread)
        drawn := s.drawn ++ (List.ofFn draws).map fun draw => draw.k.1 }
    else s

/-- `worker.on('message', ...)` -/
def PreSigning.handle (s : PreSigning) : WorkerMessage → PreSigning
  | .TUPLE_BATCH batch => s.call curve (.ingestBatch batch)
  | _ => s

def PreSigning.deliver (s : PreSigning) (worker : ℕ) : PreSigning :=
  match s.threads[worker]? with
  | none => s
  | some thread =>
    match thread.outbox with
    | [] => s
    | message :: rest =>
      { s with threads := s.threads.set worker { thread with outbox := rest } }.handle curve message

def PreSigning.step (s : PreSigning) : SystemEvent curve.CURVE_ORDER → PreSigning
  | .start => s.start curve
  | .stop => s.stop curve
  | .stopFinished => s.stopFinished curve
  | .consumeTuple => s.call curve .consumeTuple
  | .executeOnlineSign messageHash privateShare ref =>
    s.call curve (.executeOnlineSign messageHash privateShare ref)
  | .boot worker draws =>
    s.generateIn curve .starting worker draws (·.boot curve compress sha256 draws)
  | .tick worker draws =>
    s.generateIn curve .running worker draws (·.generate curve compress sha256 draws)
  | .handleStop worker =>
    { s with threads := s.threads.modify worker WorkerThread.handleStop }
  | .deliver worker => s.deliver curve worker

end Step

/-! ## Tuples on their way -/

def WorkerMessage.batch : WorkerMessage → List PreSignatureTuple
  | .TUPLE_BATCH batch => batch
  | _ => []

/-- Nonces of tuples, with repetitions; reading one may throw. -/
abbrev Nonces := Multiset (Except JSError ℤ)

def nonces (batch : List PreSignatureTuple) : Nonces :=
  Multiset.map PreSignatureTuple.nonce ↑batch

def scalars (ks : List ℤ) : Nonces := Multiset.map Except.ok ↑ks

@[simp] theorem nonces_append (batch batch' : List PreSignatureTuple) :
    nonces (batch ++ batch') = nonces batch + nonces batch' := by
  rw [nonces, ← Multiset.coe_add, Multiset.map_add]
  rfl

@[simp] theorem scalars_append (ks ks' : List ℤ) :
    scalars (ks ++ ks') = scalars ks + scalars ks' := by
  rw [scalars, ← Multiset.coe_add, Multiset.map_add]
  rfl

/-- The nonces that a thread has posted and the main thread has not handled. -/
def WorkerThread.inFlight (thread : WorkerThread) : Nonces :=
  (thread.outbox.map fun message => nonces message.batch).sum

def inFlight (threads : List WorkerThread) : Nonces :=
  (threads.map WorkerThread.inFlight).sum

theorem inFlight_post (thread : WorkerThread) (message : WorkerMessage) :
    WorkerThread.inFlight { thread with outbox := thread.outbox ++ [message] } =
      thread.inFlight + nonces message.batch := by
  simp [WorkerThread.inFlight]

theorem inFlight_set {threads : List WorkerThread} {worker : ℕ} {thread : WorkerThread}
    (hget : threads[worker]? = some thread) (thread' : WorkerThread) :
    inFlight (threads.set worker thread') + thread.inFlight =
      inFlight threads + thread'.inFlight := by
  induction threads generalizing worker with
  | nil => cases hget
  | cons first threads ih =>
    cases worker with
    | zero =>
      obtain rfl : first = thread := Option.some.inj hget
      simp only [inFlight, List.set_cons_zero, List.map_cons, List.sum_cons]
      abel
    | succ worker =>
      have := ih hget
      simp only [inFlight, List.set_cons_succ, List.map_cons, List.sum_cons] at this ⊢
      rw [add_assoc, this, add_assoc]

theorem inFlight_modify {change : WorkerThread → WorkerThread}
    (h : ∀ thread, (change thread).inFlight = thread.inFlight) (threads : List WorkerThread)
    (worker : ℕ) : inFlight (threads.modify worker change) = inFlight threads := by
  rw [inFlight, map_modify_eq h, inFlight]

theorem inFlight_postStop (workers : List ℕ) (threads : List WorkerThread) :
    inFlight (workers.foldl (fun threads i => threads.modify i WorkerThread.postStop) threads) =
      inFlight threads := by
  induction workers generalizing threads with
  | nil => rfl
  | cons worker workers ih =>
    rw [List.foldl_cons, ih]
    apply inFlight_modify
    intro _
    rfl

theorem inFlight_handleStop (thread : WorkerThread) :
    thread.handleStop.inFlight = thread.inFlight := by
  rw [WorkerThread.handleStop]
  split
  · simp [WorkerThread.inFlight, WorkerMessage.batch, nonces]
  · rfl

theorem inFlight_start (threads : List WorkerThread) (workerCount : ℕ) :
    inFlight (threads ++ List.replicate workerCount newWorker) = inFlight threads := by
  have hnew : newWorker.inFlight = 0 := rfl
  simp [inFlight, hnew]

/-! ## What is drawn and what is ingested -/

section Drawn

variable {G : Type} [AddCommGroup G] [DecidableEq G] {curve : Curve G} {compress : G → Bytes}
  {sha256 : Bytes → Digest}

theorem generateBatch_ok (horder : curve.n ≤ 16 ^ 64)
    (draws : Fin batchSize → TupleDraw curve.CURVE_ORDER) :
    ∃ batch, generateBatch curve compress sha256 draws = .ok batch ∧
      nonces batch = scalars ((List.ofFn draws).map fun draw => draw.k.1) := by
  rw [generateBatch]
  generalize List.ofFn draws = l
  induction l with
  | nil => exact ⟨[], rfl, rfl⟩
  | cons draw l ih =>
    obtain ⟨raw, tuple, hraw, htuple, hk, -⟩ := queuedTuple_generateTuple curve compress sha256
      draw.now draw.timestamp horder draw.k.2.1 draw.k.2.2
    obtain ⟨batch, hbatch, hnonces⟩ := ih
    refine ⟨raw :: batch, ?_, ?_⟩
    · rw [List.mapM_cons, hraw, hbatch]
      rfl
    · have hnonce : raw.nonce = .ok draw.k.1 := by
        rw [queuedTuple_ok htuple, hk]
        rfl
      rw [nonces, ← Multiset.cons_coe, Multiset.map_cons, ← nonces, hnonces, hnonce, List.map_cons,
        scalars, scalars, ← Multiset.cons_coe, Multiset.map_cons]

/-- What has been ingested and what is on its way has been drawn. -/
def Accounted (s : PreSigning) : Prop :=
  nonces s.log.ingested + inFlight s.threads ≤ scalars s.drawn

/-- An event of the engine ingests a part of a batch, or nothing. -/
theorem ingestedBy_batch (state : EngineState) (batch : List PreSignatureTuple) :
    ingestedBy state (.ingestBatch batch) <+: batch := by
  rw [ingestedBy]
  split
  · exact List.nil_prefix
  · exact (accepted_fits state batch).1

omit [DecidableEq G] in
theorem accounted_call {s : PreSigning} (h : Accounted s) {event : EngineEvent}
    (hevent : ingestedBy s.log.engine event = []) : Accounted (s.call curve event) := by
  rw [Accounted, PreSigning.call, loggedStep, hevent, List.append_nil]
  exact h

variable (compress sha256) in
theorem accounted_generateIn (horder : curve.n ≤ 16 ^ 64) {s : PreSigning} (h : Accounted s)
    (phase : WorkerPhase) (worker : ℕ) (draws : Fin batchSize → TupleDraw curve.CURVE_ORDER)
    {generate : WorkerThread → WorkerThread}
    (hgenerate : ∀ thread batch, generateBatch curve compress sha256 draws = .ok batch →
      (generate thread).inFlight = thread.inFlight + nonces batch) :
    Accounted (s.generateIn curve phase worker draws generate) := by
  rw [PreSigning.generateIn]
  split
  · exact h
  next thread hthread =>
    split
    next =>
      obtain ⟨batch, hbatch, hnonces⟩ :=
        @generateBatch_ok _ _ _ curve compress sha256 horder draws
      have hset := inFlight_set hthread (generate thread)
      rw [hgenerate thread batch hbatch, hnonces, add_comm thread.inFlight, ← add_assoc,
        add_left_inj] at hset
      rw [Accounted, hset, scalars_append, ← add_assoc]
      exact add_le_add_left h _
    · exact h

omit [DecidableEq G] in
theorem accounted_deliver {s : PreSigning} (h : Accounted s) (worker : ℕ) :
    Accounted (s.deliver curve worker) := by
  rw [PreSigning.deliver]
  split
  · exact h
  next thread hthread =>
    split
    · exact h
    next message rest houtbox =>
      have hset := inFlight_set hthread { thread with outbox := rest }
      have hthreadInFlight : thread.inFlight =
          nonces message.batch + WorkerThread.inFlight { thread with outbox := rest } := by
        rw [WorkerThread.inFlight, houtbox, List.map_cons, List.sum_cons, WorkerThread.inFlight]
      rw [hthreadInFlight, ← add_assoc, add_left_inj] at hset
      rw [Accounted] at h ⊢
      cases message with
      | TUPLE_BATCH batch =>
        have hpart : nonces (ingestedBy s.log.engine (.ingestBatch batch)) ≤ nonces batch :=
          Multiset.map_le_map (Multiset.coe_le.mpr
            (ingestedBy_batch s.log.engine batch).sublist.subperm)
        rw [PreSigning.handle, PreSigning.call, loggedStep, nonces_append, add_assoc]
        refine le_trans (add_le_add_right ?_ _) h
        rw [← hset, add_comm]
        exact add_le_add_right hpart _
      | WORKER_READY | WORKER_STOPPED =>
        have hsame : inFlight (s.threads.set worker { thread with outbox := rest }) =
            inFlight s.threads := by
          rw [← hset]
          exact (add_zero _).symm
        change nonces s.log.ingested + inFlight (s.threads.set worker _) ≤ _
        rw [hsame]
        exact h

/-- **One event** leaves the nonces accounted for. -/
theorem accounted_step (horder : curve.n ≤ 16 ^ 64) {s : PreSigning} (h : Accounted s)
    (event : SystemEvent curve.CURVE_ORDER) : Accounted (s.step curve compress sha256 event) := by
  have hpost : ∀ (thread : WorkerThread) draws batch,
      generateBatch curve compress sha256 draws = .ok batch →
      (thread.generate curve compress sha256 draws).inFlight = thread.inFlight + nonces batch := by
    intro thread draws batch hbatch
    rw [WorkerThread.generate, hbatch]
    exact inFlight_post thread (.TUPLE_BATCH batch)
  cases event with
  | start =>
    rw [PreSigning.step, PreSigning.start]
    split
    · exact h
    · have hcall := @accounted_call _ _ curve s h .start rfl
      rw [Accounted] at hcall ⊢
      dsimp only
      rw [inFlight_start]
      exact hcall
  | stop =>
    have hcall := @accounted_call _ _ curve s h .stop rfl
    rw [Accounted] at hcall ⊢
    rw [PreSigning.step, PreSigning.stop]
    dsimp only
    rw [inFlight_postStop]
    exact hcall
  | stopFinished =>
    rw [PreSigning.step, PreSigning.stopFinished]
    split
    · exact @accounted_call _ _ curve s h .stopFinished rfl
    · exact h
  | consumeTuple => exact accounted_call h rfl
  | executeOnlineSign messageHash privateShare ref => exact accounted_call h rfl
  | boot worker draws =>
    refine accounted_generateIn compress sha256 horder h .starting worker draws
      fun thread batch hbatch => ?_
    rw [WorkerThread.boot, hpost _ draws batch hbatch, inFlight_post]
    simp [WorkerMessage.batch, nonces]
  | tick worker draws =>
    exact accounted_generateIn compress sha256 horder h .running worker draws
      fun thread batch hbatch => hpost thread draws batch hbatch
  | handleStop worker =>
    rw [PreSigning.step, Accounted, inFlight_modify inFlight_handleStop]
    exact h
  | deliver worker => exact accounted_deliver h worker

end Drawn

/-! ## What is signed -/

section Signed

variable {G : Type} [AddCommGroup G] {curve : Curve G}

/-- Every signature has used up a tuple of its own. -/
def SignedOnce (s : PreSigning) : Prop :=
  ∃ refs : List ℕ, refs.Nodup ∧
    (∀ ref ∈ refs, ref < s.log.engine.tuples.length ∧ ∀ k, ¬ NonceAt s.log.engine.tuples ref k) ∧
    List.Forall₂ (fun ref k => ∃ raw, s.log.ingested[ref]? = some raw ∧ raw.nonce = .ok k)
      refs s.signed

theorem nonceSigned_cases (state : EngineState) (event : EngineEvent) :
    nonceSigned curve state event = [] ∨
      ∃ k, nonceSigned curve state event = [k] ∧ UsesNonce curve k state event := by
  cases event with
  | executeOnlineSign messageHash privateShare ref =>
    rw [nonceSigned]
    split
    next signature tuple hsign htuple =>
      cases hk : tuple.k.value with
      | error e => exact Or.inl rfl
      | ok k => exact Or.inr ⟨k, rfl, _, _, ref, tuple, signature, rfl, htuple, hk, hsign⟩
    · exact Or.inl rfl
  | _ => exact Or.inl rfl

/-- **One call.** A new signature uses up a tuple that no other one has used. -/
theorem signedOnce_call {s : PreSigning} (hnonce : NonceInvariant s.log) (h : SignedOnce s)
    (event : EngineEvent) : SignedOnce (s.call curve event) := by
  obtain ⟨refs, hnodup, hreleased, hsigned⟩ := h
  have hlater := later_step curve s.log event
  have hkept : ∀ ref ∈ refs, ref < (loggedStep curve s.log event).engine.tuples.length ∧
      ∀ k, ¬ NonceAt (loggedStep curve s.log event).engine.tuples ref k := fun ref href =>
    ⟨(hreleased ref href).1.trans_le hlater.length, fun k hk =>
      (hreleased ref href).2 k (hlater.nonce ref k (hreleased ref href).1 hk)⟩
  have hold : ∀ {ref : ℕ} {raw : PreSignatureTuple}, s.log.ingested[ref]? = some raw →
      (loggedStep curve s.log event).ingested[ref]? = some raw := by
    intro ref raw hget
    obtain ⟨more, hmore⟩ := hlater.ingested
    rw [← hmore, List.getElem?_append_left (List.getElem?_eq_some_iff.mp hget).1, hget]
  have hnonces : List.Forall₂ (fun (ref : ℕ) (k : ℤ) => ∃ raw : PreSignatureTuple,
      (loggedStep curve s.log event).ingested[ref]? = some raw ∧ raw.nonce = .ok k)
      refs s.signed := by
    refine hsigned.imp ?_
    rintro ref k ⟨raw, hget, hk⟩
    exact ⟨raw, hold hget, hk⟩
  rw [SignedOnce, PreSigning.call]
  rcases @nonceSigned_cases _ _ curve s.log.engine event with hnone | ⟨k, hk, huses⟩
  · rw [hnone, List.append_nil]
    exact ⟨refs, hnodup, hkept, hnonces⟩
  · obtain ⟨ref, hread, hused⟩ := nonceAt_of_uses huses
    obtain ⟨raw, hget, hraw⟩ := hnonce.nonce ref k hread
    rw [hk]
    refine ⟨refs ++ [ref], ?_, ?_, List.rel_append hnonces (.cons ⟨raw, hold hget, hraw⟩ .nil)⟩
    · rw [List.nodup_append]
      refine ⟨hnodup, List.nodup_singleton _, fun ref' href' other hother => ?_⟩
      obtain rfl := List.mem_singleton.mp hother
      rintro rfl
      exact (hreleased _ href').2 k hread
    · intro ref' href'
      rcases List.mem_append.mp href' with hrefs | hlast
      · exact hkept ref' hrefs
      · obtain rfl := List.mem_singleton.mp hlast
        exact ⟨(nonceAt_lt hread).trans_le hlater.length, hused⟩

theorem SignedOnce.scalars_le {s : PreSigning} (h : SignedOnce s)
    (hnonce : NonceInvariant s.log) : scalars s.signed ≤ nonces s.log.ingested := by
  obtain ⟨refs, hnodup, hreleased, hsigned⟩ := h
  let nonceOf : ℕ → Option (Except JSError ℤ) := fun ref =>
    s.log.ingested[ref]?.map PreSignatureTuple.nonce
  have hrefs : refs.map nonceOf = (s.signed.map Except.ok).map some := by
    clear hnodup hreleased
    generalize s.signed = signed at hsigned
    induction hsigned with
    | nil => rfl
    | cons hfirst hrest ih =>
      obtain ⟨raw, hget, hk⟩ := hfirst
      rw [List.map_cons, ih]
      simp [nonceOf, hget, hk]
  have hall : (List.range s.log.ingested.length).map nonceOf =
      (s.log.ingested.map PreSignatureTuple.nonce).map some := by
    apply List.ext_getElem?
    intro ref
    by_cases href : ref < s.log.ingested.length
    · simp [nonceOf, href]
    · simp [nonceOf, Nat.le_of_not_lt href]
  have hsub : refs ⊆ List.range s.log.ingested.length := fun ref href =>
    List.mem_range.mpr (hnonce.length ▸ (hreleased ref href).1)
  have hle : Multiset.map some (scalars s.signed) ≤
      Multiset.map some (nonces s.log.ingested) := by
    simp only [scalars, nonces, Multiset.map_coe]
    rw [← hrefs, ← hall, ← Multiset.map_coe, ← Multiset.map_coe nonceOf (List.range _)]
    exact Multiset.map_le_map (Multiset.coe_le.mpr (List.subperm_of_subset hnodup hsub))
  exact (Multiset.map_le_map_iff (Option.some_injective _)).mp hle

variable [DecidableEq G] (compress : G → Bytes) (sha256 : Bytes → Digest)

/-- **One event** of the system is a call on the engine, or the engine does not see it. -/
theorem step_calls (s : PreSigning) (event : SystemEvent curve.CURVE_ORDER) :
    let s' := s.step curve compress sha256 event
    s'.log = s.log ∧ s'.signed = s.signed ∨
      ∃ call, s'.log = (s.call curve call).log ∧ s'.signed = (s.call curve call).signed := by
  cases event with
  | start =>
    rw [PreSigning.step, PreSigning.start]
    split
    · exact Or.inl ⟨rfl, rfl⟩
    · exact Or.inr ⟨.start, rfl, rfl⟩
  | stop => exact Or.inr ⟨.stop, rfl, rfl⟩
  | stopFinished =>
    rw [PreSigning.step, PreSigning.stopFinished]
    split
    · exact Or.inr ⟨.stopFinished, rfl, rfl⟩
    · exact Or.inl ⟨rfl, rfl⟩
  | consumeTuple => exact Or.inr ⟨.consumeTuple, rfl, rfl⟩
  | executeOnlineSign messageHash privateShare ref =>
    exact Or.inr ⟨.executeOnlineSign messageHash privateShare ref, rfl, rfl⟩
  | boot worker draws | tick worker draws =>
    rw [PreSigning.step, PreSigning.generateIn]
    split
    · exact Or.inl ⟨rfl, rfl⟩
    · split
      · exact Or.inl ⟨rfl, rfl⟩
      · exact Or.inl ⟨rfl, rfl⟩
  | handleStop worker => exact Or.inl ⟨rfl, rfl⟩
  | deliver worker =>
    rw [PreSigning.step, PreSigning.deliver]
    split
    · exact Or.inl ⟨rfl, rfl⟩
    · split
      · exact Or.inl ⟨rfl, rfl⟩
      next message _ _ =>
        cases message with
        | TUPLE_BATCH batch => exact Or.inr ⟨.ingestBatch batch, rfl, rfl⟩
        | WORKER_READY | WORKER_STOPPED => exact Or.inl ⟨rfl, rfl⟩

variable {compress sha256}

/-- Every nonce comes from a draw and signs once. -/
structure NoncesKept (s : PreSigning) : Prop where
  nonce : NonceInvariant s.log
  once : SignedOnce s
  accounted : Accounted s

theorem noncesKept_new (config : PreComputationConfig) (workerCount : ℕ) :
    NoncesKept (newPreSigning config workerCount) where
  nonce := by
    refine ⟨rfl, ?_⟩
    rintro ref k ⟨tuple, htuple, -⟩
    cases htuple
  once := ⟨[], .nil, by simp, .nil⟩
  accounted := le_rfl

theorem noncesKept_step (horder : curve.n ≤ 16 ^ 64) {s : PreSigning} (h : NoncesKept s)
    (event : SystemEvent curve.CURVE_ORDER) :
    NoncesKept (s.step curve compress sha256 event) := by
  have haccounted := @accounted_step _ _ _ curve compress sha256 horder s h.accounted event
  rcases step_calls compress sha256 s event with ⟨hlog, hsigned⟩ | ⟨call, hlog, hsigned⟩
  · refine ⟨hlog ▸ h.nonce, ?_, haccounted⟩
    rw [SignedOnce, hlog, hsigned]
    exact h.once
  · refine ⟨hlog ▸ nonceInvariant_step h.nonce call, ?_, haccounted⟩
    have honce := @signedOnce_call _ _ curve s h.nonce h.once call
    rw [SignedOnce, hlog, hsigned]
    exact honce

/-- **Runs.** Whatever the threads do and in whatever order their messages are handled, also
across stops and restarts, the nonces of the returned signatures are among the scalars that the
threads have drawn, each at most as often as it was drawn. -/
theorem signed_le_drawn (horder : curve.n ≤ 16 ^ 64) (config : PreComputationConfig)
    (workerCount : ℕ) (events : List (SystemEvent curve.CURVE_ORDER)) :
    let s := run (PreSigning.step curve compress sha256) (newPreSigning config workerCount) events
    ∀ k, s.signed.count k ≤ s.drawn.count k := by
  intro s k
  have hkept : NoncesKept s := run_invariant NoncesKept (noncesKept_new config workerCount)
    (fun _ event h => noncesKept_step horder h event) events
  have hle : scalars s.signed ≤ scalars s.drawn :=
    (hkept.once.scalars_le hkept.nonce).trans
      ((Multiset.le_add_right _ _).trans hkept.accounted)
  have hsub : (s.signed : Multiset ℤ) ≤ s.drawn :=
    (Multiset.map_le_map_iff fun _ _ => Except.ok.inj).mp hle
  simpa using Multiset.count_le_of_le k hsub

theorem scalar_five : 1 ≤ (5 : ℤ) ∧ (5 : ℤ) < Curve.curve43.CURVE_ORDER := by decide

/-- One thread generates a batch, and its first tuple signs. -/
def oneThread : List (SystemEvent Curve.curve43.CURVE_ORDER) :=
  [.start, .boot 0 fun j => ⟨if j.1 = 0 then ⟨5, scalar_five⟩ else ⟨3, Curve.scalar_three⟩, 0, 0⟩,
    .deliver 0, .deliver 0, .consumeTuple, .executeOnlineSign [1] (.ofInt 7) 0]

def afterOneThread : PreSigning :=
  run (PreSigning.step Curve.curve43 (fun _ => [2]) fun _ => zeroDigest)
    (newPreSigning ⟨.ofInt 5000⟩ 1) oneThread

theorem signed_le_drawn_one :
    afterOneThread.signed = [5] ∧ afterOneThread.drawn = 5 :: List.replicate 9 3 ∧
      ∀ k, afterOneThread.signed.count k ≤ afterOneThread.drawn.count k :=
  ⟨by decide +kernel, by decide +kernel, signed_le_drawn (by decide) ⟨.ofInt 5000⟩ 1 oneThread⟩

end Signed

end BioFire.PreComputation
