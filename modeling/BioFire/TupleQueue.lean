import BioFire.PreComputation
import Mathlib.Data.ENat.Lattice
import Mathlib.Data.Rat.Floor

/-!
# The tuple queue (`src/lib/protocol/pre_computation_engine.ts`)

What enters and leaves the queue of a `PreComputationEngine` from its construction until a `stop`
completes. The comparison with `queueMaxSize` is one of numbers, so the limit is that size rounded
up to a number of tuples.

* `accepted_fits`: a batch is accepted up to the room that is left;
* `conserved_step`: what one event keeps of the counters and the order;
* `queue_conservation`: what is accepted is handed out in order or still in the queue, and a
  completed `stop` releases the rest.
-/

namespace BioFire.PreComputation

open Runs

/-! ## Configuration -/

/-- `config.queueMaxSize || 5000` -/
def queueMaxSizeOrDefault : Option JSNumber → JSNumber
  | none => .finite 5000
  | some size => if size = .nan ∨ size = .finite 0 then .finite 5000 else size

/-- `new PreComputationEngine(config)` -/
def newPreComputationEngine (queueMaxSize : Option JSNumber) : EngineState :=
  newEngine ⟨queueMaxSizeOrDefault queueMaxSize⟩

/-- How many tuples the queue takes: its size rounded up, none if that is negative. -/
def capacity : JSNumber → ℕ∞
  | .nan => ⊤
  | .infinity => ⊤
  | .negInfinity => 0
  | .finite size => ⌈size⌉₊

@[simp] theorem capacity_natCast (n : ℕ) : capacity (.finite n) = n := by
  rw [capacity, Nat.ceil_natCast]

theorem isFull_iff (state : EngineState) :
    state.isFull = true ↔ capacity state.config.queueMaxSize ≤ state.queue.length := by
  rw [EngineState.isFull]
  cases state.config.queueMaxSize with
  | nan => simp [JSNumber.leRat, capacity]
  | infinity => simp [JSNumber.leRat, capacity]
  | negInfinity => simp [JSNumber.leRat, capacity]
  | finite size => rw [JSNumber.leRat, decide_eq_true_eq, capacity, Nat.cast_le, Nat.ceil_le]

/-! ## Batches -/

/-- The tuple that `ingestBatch` makes of what a worker sent. -/
def Made (raw : PreSignatureTuple) (tuple : QueuedTuple) : Prop := queuedTuple raw = .ok tuple

theorem queuedTuple_returns (raw : PreSignatureTuple) : ∃ tuple, Made raw tuple := ⟨_, rfl⟩

/-- **Partial acceptance.** The loop accepts the first tuples of a batch, as many as there is
room for. -/
theorem accepted_fits (state : EngineState) (batch : List PreSignatureTuple) :
    accepted state batch <+: batch ∧ ((accepted state batch).length : ℕ∞) =
      min (batch.length : ℕ∞) (capacity state.config.queueMaxSize - state.queue.length) := by
  induction batch generalizing state with
  | nil => exact ⟨List.prefix_refl _, by simp [accepted]⟩
  | cons raw batch ih =>
    rw [accepted]
    split
    next hfull =>
      rw [tsub_eq_zero_of_le ((isFull_iff state).mp hfull)]
      exact ⟨List.nil_prefix, by simp⟩
    next hroom =>
      obtain ⟨tuple, htuple⟩ := queuedTuple_returns raw
      rw [Made] at htuple
      rw [htuple]
      obtain ⟨hfront, hlength⟩ := ih (push state tuple)
      refine ⟨(List.prefix_cons_inj raw).mpr hfront, ?_⟩
      rw [isFull_iff, not_le] at hroom
      have hone : 1 ≤ capacity state.config.queueMaxSize - state.queue.length :=
        Order.one_le_iff_pos.mpr (tsub_pos_of_lt hroom)
      have hless : capacity (push state tuple).config.queueMaxSize -
          (push state tuple).queue.length =
            capacity state.config.queueMaxSize - state.queue.length - 1 := by
        rw [push, List.length_append, List.length_singleton, Nat.cast_add, Nat.cast_one,
          tsub_add_eq_tsub_tsub]
      rw [List.length_cons, List.length_cons, Nat.cast_add, Nat.cast_add, Nat.cast_one, hlength,
        hless, ← min_add_add_right, tsub_add_cancel_of_le hone]

theorem ingestBatch_fits (state : EngineState) (batch : List PreSignatureTuple) :
    ingestedBy state (.ingestBatch batch) <+: batch ∧ (state.isRunning = true →
      ((ingestedBy state (.ingestBatch batch)).length : ℕ∞) =
        min (batch.length : ℕ∞) (capacity state.config.queueMaxSize - state.queue.length)) := by
  rw [ingestedBy]
  split
  next hskipped =>
    refine ⟨List.nil_prefix, fun hrunning => ?_⟩
    rw [hrunning, Bool.not_true, Bool.false_or, isFull_iff] at hskipped
    rw [tsub_eq_zero_of_le hskipped]
    simp
  next =>
    obtain ⟨hfront, hlength⟩ := accepted_fits state batch
    exact ⟨hfront, fun _ => hlength⟩

/-! ## Conservation -/

/-- The tuples in the queue. -/
def queued (state : EngineState) : List QueuedTuple :=
  state.queue.filterMap fun ref => state.tuples[ref]?

/-- What an event hands out. -/
def handedOutBy (state : EngineState) : EngineEvent → List QueuedTuple
  | .consumeTuple => ((consumeTuple state).2.bind fun ref => state.tuples[ref]?).toList
  | _ => []

/-- An engine, with everything it has ingested and everything it has handed out. -/
structure TupleLog extends LoggedEngine where
  handedOut : List QueuedTuple

variable {G : Type} [AddCommGroup G] {curve : Curve G}

variable (curve) in
def tupleStep (s : TupleLog) (event : EngineEvent) : TupleLog :=
  ⟨loggedStep curve s.toLoggedEngine event, s.handedOut ++ handedOutBy s.engine event⟩

def newTupleLog (queueMaxSize : Option JSNumber) : TupleLog :=
  ⟨⟨newPreComputationEngine queueMaxSize, []⟩, []⟩

/-- The queue keeps its limit and its order. -/
structure Conserved (s : TupleLog) : Prop where
  bounded : (s.engine.queue.length : ℕ∞) ≤ capacity s.engine.config.queueMaxSize
  counted : (s.engine.totalGenerated : ℤ) - s.engine.totalConsumed = s.engine.queue.length
  /-- The objects handed out and those in the queue are those created, each once and in order. -/
  positions : s.engine.handedOut ++ s.engine.queue = List.range s.engine.tuples.length
  handedOut : s.handedOut.length = s.engine.handedOut.length
  /-- The accepted tuples are those handed out and then those in the queue. -/
  fifo : List.Forall₂ Made s.ingested (s.handedOut ++ queued s.engine)

/-- The tuples in the queue are those created after the ones handed out. -/
theorem queued_eq_drop {state : EngineState}
    (h : state.handedOut ++ state.queue = List.range state.tuples.length) :
    queued state = state.tuples.drop state.handedOut.length := by
  have hqueue : state.queue = (List.range state.tuples.length).drop state.handedOut.length := by
    rw [← h, List.drop_left]
  have hmap : (state.queue.map fun ref => state.tuples[ref]?) =
      (state.tuples.drop state.handedOut.length).map some := by
    apply List.ext_getElem?
    intro i
    rw [List.getElem?_map, List.getElem?_map, hqueue, List.getElem?_drop, List.getElem?_drop]
    by_cases hi : state.handedOut.length + i < state.tuples.length
    · rw [List.getElem?_range hi, Option.map_some, List.getElem?_eq_getElem hi, Option.map_some]
    · rw [List.getElem?_eq_none (by simpa using hi), List.getElem?_eq_none (by simpa using hi)]
      rfl
  calc queued state
      = (state.queue.map fun ref => state.tuples[ref]?).filterMap id := by
        rw [List.filterMap_map]
        rfl
    _ = state.tuples.drop state.handedOut.length := by
        rw [hmap, List.filterMap_map]
        exact List.filterMap_some

theorem conserved_ingestLoop {s : TupleLog} (h : Conserved s) (batch : List PreSignatureTuple) :
    Conserved ⟨⟨(ingestLoop s.engine batch).1, s.ingested ++ accepted s.engine batch⟩,
      s.handedOut⟩ := by
  obtain ⟨new, hmade, hnew⟩ := ingestLoop_eq s.engine batch
  have hpositions : s.engine.handedOut ++
      (s.engine.queue ++ List.range' s.engine.tuples.length new.length) =
        List.range (s.engine.tuples ++ new).length := by
    rw [← List.append_assoc, h.positions, List.length_append, List.range_eq_range',
      List.range_eq_range', ← List.range'_append_1, Nat.zero_add]
  have hhanded : s.engine.handedOut.length ≤ s.engine.tuples.length := by
    have hlength := congrArg List.length h.positions
    rw [List.length_append, List.length_range] at hlength
    omega
  rw [hnew]
  constructor
  · have hfits := (accepted_fits s.engine batch).2
    rw [hmade.length_eq] at hfits
    have hroom : (new.length : ℕ∞) ≤
        capacity s.engine.config.queueMaxSize - s.engine.queue.length :=
      hfits ▸ min_le_right _ _
    dsimp only
    rw [List.length_append, List.length_range', Nat.cast_add]
    exact (add_le_add_right hroom _).trans (add_tsub_cancel_of_le h.bounded).le
  · have hcounted := h.counted
    dsimp only
    rw [List.length_append, List.length_range']
    push_cast
    omega
  · exact hpositions
  · exact h.handedOut
  · have hfifo := h.fifo
    rw [queued_eq_drop h.positions] at hfifo
    rw [queued_eq_drop hpositions, List.drop_append_of_le_length hhanded, ← List.append_assoc]
    exact List.rel_append hfifo hmade

theorem conserved_consumeTuple {s : TupleLog} (h : Conserved s) :
    Conserved ⟨⟨(consumeTuple s.engine).1, s.ingested⟩,
      s.handedOut ++ handedOutBy s.engine .consumeTuple⟩ := by
  have hfifo := h.fifo
  have hpositions := h.positions
  have hbounded := h.bounded
  have hcounted := h.counted
  rw [queued] at hfifo
  rw [handedOutBy, consumeTuple]
  split
  next => simpa using h
  next ref queue hqueue =>
    rw [hqueue] at hfifo hpositions hbounded hcounted
    have hlt : ref < s.engine.tuples.length := by
      rw [← List.mem_range, ← hpositions]
      simp
    have hpositions' : (s.engine.handedOut ++ [ref]) ++ queue =
        List.range s.engine.tuples.length := by
      rw [List.append_assoc, List.singleton_append, hpositions]
    have hget : s.engine.tuples[ref]? = some s.engine.tuples[ref] := List.getElem?_eq_getElem hlt
    simp only [Option.bind_some, hget, Option.toList_some]
    constructor
    · refine le_trans ?_ hbounded
      exact Nat.cast_le.mpr (Nat.le_succ _)
    · rw [List.length_cons] at hcounted
      push_cast at hcounted ⊢
      omega
    · exact hpositions'
    · rw [List.length_append, List.length_append, h.handedOut]
      rfl
    · rw [queued, List.append_assoc, List.singleton_append]
      rwa [List.filterMap_cons_some hget] at hfifo

theorem conserved_executeOnlineSign {s : TupleLog} (h : Conserved s) (messageHash : Bytes)
    (privateShare : SecureBigInt) (ref : ℕ) :
    Conserved ⟨⟨(executeOnlineSign curve s.engine messageHash privateShare ref).1, s.ingested⟩,
      s.handedOut⟩ := by
  rw [executeOnlineSign]
  split
  next hhanded =>
    split
    · exact h
    next tuple htuple =>
      have hpositions : s.engine.handedOut ++ s.engine.queue =
          List.range (s.engine.tuples.set ref tuple.release).length := by
        rw [List.length_set, h.positions]
      have hlt : ref < s.engine.handedOut.length := by
        have htake : s.engine.handedOut =
            (List.range s.engine.tuples.length).take s.engine.handedOut.length := by
          rw [← h.positions, List.take_left]
        rw [htake, List.take_range, List.mem_range] at hhanded
        exact hhanded.trans_le (min_le_left _ _)
      refine ⟨h.bounded, h.counted, hpositions, h.handedOut, ?_⟩
      have hfifo := h.fifo
      rw [queued_eq_drop h.positions] at hfifo
      rw [queued_eq_drop hpositions, List.drop_set_of_lt hlt]
      exact hfifo
  · exact h

variable (curve) in
/-- **One event** that is not the end of a `stop` keeps the counters and the order. -/
theorem conserved_step {s : TupleLog} (h : Conserved s) {event : EngineEvent}
    (hevent : event ≠ .stopFinished) : Conserved (tupleStep curve s event) := by
  have hsame : ∀ {engine : EngineState}, Conserved ⟨⟨engine, s.ingested⟩, s.handedOut⟩ →
      Conserved ⟨⟨engine, s.ingested ++ []⟩, s.handedOut ++ []⟩ := by
    intro engine hengine
    rwa [List.append_nil, List.append_nil]
  cases event with
  | start => exact hsame ⟨h.bounded, h.counted, h.positions, h.handedOut, h.fifo⟩
  | stop => exact hsame ⟨h.bounded, h.counted, h.positions, h.handedOut, h.fifo⟩
  | stopFinished => exact absurd rfl hevent
  | consumeTuple =>
    have hconsumed := conserved_consumeTuple h
    rwa [← List.append_nil s.ingested] at hconsumed
  | executeOnlineSign messageHash privateShare ref =>
    exact hsame (conserved_executeOnlineSign h messageHash privateShare ref)
  | ingestBatch batch =>
    simp only [tupleStep, loggedStep, step, ingestBatch, ingestedBy, handedOutBy]
    cases hrunning : s.engine.isRunning
    · exact hsame h
    · cases hfull : s.engine.isFull
      · have hingested := conserved_ingestLoop h batch
        rwa [← List.append_nil s.handedOut] at hingested
      · exact hsame h

/-! ## Shutdown -/

/-- Everything secret in the tuple is zeroized. -/
structure QueuedTuple.Released (tuple : QueuedTuple) : Prop where
  k : tuple.k.data = none
  gamma : tuple.gamma.data = none
  chi : tuple.chi.data = none

theorem QueuedTuple.released_release (tuple : QueuedTuple) : tuple.release.Released :=
  ⟨rfl, rfl, rfl⟩

/-- What `zeroizeQueue` makes of the tuple `ref`. -/
theorem getElem?_zeroized (queue : List ℕ) (tuples : List QueuedTuple) (ref : ℕ) :
    (queue.foldl (fun tuples ref => tuples.modify ref QueuedTuple.release) tuples)[ref]? =
      tuples[ref]?.map fun tuple => if ref ∈ queue then tuple.release else tuple := by
  induction queue generalizing tuples with
  | nil => simp
  | cons first queue ih =>
    rw [List.foldl_cons, ih, List.getElem?_modify, Option.map_eq_map, Option.map_map]
    congr 1
    funext tuple
    by_cases hfirst : first = ref
    · subst hfirst
      have htwice : tuple.release.release = tuple.release := rfl
      simp [htwice]
    · simp [hfirst, Ne.symm hfirst]

/-- A completed `stop` leaves no tuple in the queue and none of them readable. -/
theorem stopFinished_releases {state : EngineState} (hstopping : 0 < state.stopping)
    (hqueue : ∀ ref ∈ state.queue, ref < state.tuples.length) :
    (stopFinished state).queue = [] ∧ ∀ ref ∈ state.queue,
      ∃ tuple, (stopFinished state).tuples[ref]? = some tuple ∧ tuple.Released := by
  rw [stopFinished, if_pos hstopping]
  refine ⟨rfl, fun ref href => ?_⟩
  have hlt := hqueue ref href
  refine ⟨state.tuples[ref].release, ?_, QueuedTuple.released_release _⟩
  rw [zeroizeQueue]
  dsimp only
  rw [getElem?_zeroized, List.getElem?_eq_getElem hlt, Option.map_some, if_pos href]

/-! ## Runs -/

theorem ingestLoop_config (state : EngineState) (batch : List PreSignatureTuple) :
    (ingestLoop state batch).1.config = state.config := by
  obtain ⟨new, -, hnew⟩ := ingestLoop_eq state batch
  rw [hnew]

variable (curve) in
theorem step_config (state : EngineState) (event : EngineEvent) :
    (step curve state event).config = state.config := by
  cases event with
  | start => rfl
  | stop => rfl
  | stopFinished =>
    simp only [step, stopFinished]
    split <;> rfl
  | ingestBatch batch =>
    simp only [step, ingestBatch]
    split
    · rfl
    · split
      · rfl
      · exact ingestLoop_config state batch
  | consumeTuple =>
    simp only [step, consumeTuple]
    split <;> rfl
  | executeOnlineSign messageHash privateShare ref =>
    simp only [step, executeOnlineSign]
    split
    · split <;> rfl
    · rfl

variable (curve) in
theorem config_run (queueMaxSize : Option JSNumber) (events : List EngineEvent) :
    (run (tupleStep curve) (newTupleLog queueMaxSize) events).engine.config =
      ⟨queueMaxSizeOrDefault queueMaxSize⟩ :=
  run_invariant (fun s : TupleLog => s.engine.config = ⟨queueMaxSizeOrDefault queueMaxSize⟩) rfl
    (fun s event h => (step_config curve s.engine event).trans h) events

variable (curve) in
theorem conserved_run (queueMaxSize : Option JSNumber) {events : List EngineEvent}
    (hevents : ∀ event ∈ events, event ≠ .stopFinished) :
    Conserved (run (tupleStep curve) (newTupleLog queueMaxSize) events) := by
  have hstart : Conserved (newTupleLog queueMaxSize) :=
    ⟨zero_le, rfl, rfl, rfl, .nil⟩
  refine run_induction (p := fun _ event => event ≠ .stopFinished) (fun _ => Conserved) hstart
    (fun _ event h hevent => conserved_step curve h hevent) ?_
  rintro past event rest rfl
  exact hevents event (by simp)

/-- **Conservation.** Until a `stop` completes, every running engine accepts from a batch what
fits, holds no more tuples than its size rounded up, counts them, and hands them out in the order
of their acceptance. A `stop` that completes then empties the queue and releases what was in it. -/
theorem queue_conservation (curve : Curve G) (queueMaxSize : Option JSNumber)
    (events : List EngineEvent) (hevents : ∀ event ∈ events, event ≠ .stopFinished) :
    let s := run (tupleStep curve) (newTupleLog queueMaxSize) events
    let limit := capacity (queueMaxSizeOrDefault queueMaxSize)
    (∀ batch, ingestedBy s.engine (.ingestBatch batch) <+: batch ∧
      (s.engine.isRunning = true → ((ingestedBy s.engine (.ingestBatch batch)).length : ℕ∞) =
        min (batch.length : ℕ∞) (limit - s.engine.queue.length))) ∧
      s.engine.queue.length ≤ limit ∧
      (s.engine.totalGenerated : ℤ) - s.engine.totalConsumed = s.engine.queue.length ∧
      s.engine.handedOut ++ s.engine.queue = List.range s.engine.tuples.length ∧
      List.Forall₂ Made s.ingested (s.handedOut ++ queued s.engine) ∧
      (0 < s.engine.stopping → (step curve s.engine .stopFinished).queue = [] ∧
        ∀ ref ∈ s.engine.queue, ∃ tuple,
          (step curve s.engine .stopFinished).tuples[ref]? = some tuple ∧ tuple.Released) := by
  intro s limit
  have h : Conserved s := conserved_run curve queueMaxSize hevents
  have hlimit : capacity s.engine.config.queueMaxSize = limit := by
    rw [config_run curve queueMaxSize events]
  refine ⟨fun batch => ?_, hlimit ▸ h.bounded, h.counted, h.positions, h.fifo, fun hstopping => ?_⟩
  · rw [← hlimit]
    exact ingestBatch_fits s.engine batch
  · refine stopFinished_releases hstopping fun ref href => ?_
    rw [← List.mem_range, ← h.positions]
    exact List.mem_append_right _ href

/-- Three tuples arrive, and one is handed out before the engine stops. -/
def threeTuples : List EngineEvent :=
  [.start, .ingestBatch [testTuple "0x03" "0x042315", testTuple "0x05" "0x040c0c",
    testTuple "0x07" "0x040c0c"], .consumeTuple, .stop]

theorem queue_conservation_three :
    let s := run (tupleStep Curve.curve43) (newTupleLog (some (.finite 2))) threeTuples
    s.engine.queue = [1] ∧ (step Curve.curve43 s.engine .stopFinished).queue = [] ∧
      ∃ tuple, (step Curve.curve43 s.engine .stopFinished).tuples[1]? = some tuple ∧
        tuple.Released := by
  intro s
  have hqueue : s.engine.queue = [1] := by decide
  have hstopping : 0 < s.engine.stopping := by decide
  have hevents : ∀ event ∈ threeTuples, event ≠ .stopFinished := by
    intro event hevent
    rcases event <;> simp [threeTuples] at hevent ⊢
  obtain ⟨-, -, -, -, -, hstop⟩ :=
    queue_conservation Curve.curve43 (some (.finite 2)) threeTuples hevents
  obtain ⟨hempty, hreleased⟩ := hstop hstopping
  refine ⟨hqueue, hempty, hreleased 1 ?_⟩
  exact hqueue ▸ List.mem_singleton_self 1

/-- With room for two tuples and a half, three are taken. -/
theorem fractional_size_exceeded :
    let s := run (tupleStep Curve.curve43) (newTupleLog (some (.finite (5 / 2))))
      (threeTuples.take 2)
    s.engine.config.queueMaxSize = .finite (5 / 2) ∧ s.engine.queue.length = 3 ∧
      ¬((s.engine.queue.length : ℚ) ≤ 5 / 2) := by
  with_unfolding_all decide

end BioFire.PreComputation
