import BioFire.Curve
import BioFire.Runs
import BioFire.SecureBuffer

/-!
# Precomputed nonces (`src/lib/protocol/pre_computation_engine.ts`)

The tuple queue of a `PreComputationEngine`. Tuples are objects that the queue and
the callers share: `tuples` lists them in the order of their creation, and the queue
and the callers hold positions in that list. `stop` waits for its workers before it
zeroizes the queue, so its second half is an event of its own. `modN` is that of
`secp256k1.ts`. The workers and the emitted events are not modelled.

* `step_tuples`: what one event can do to the tuples;
* `nonceAt_of_uses`: a call that signs finds its nonce unreleased and releases it;
* `nonce_single_use`: over a whole run no nonce is used twice.
-/

namespace BioFire.PreComputation

open Runs

/-- What the workers send. -/
structure PreSignatureTuple where
  k : JSString
  gamma : JSString
  chi : JSString
  id : JSString
  timestamp : ℤ

structure QueuedTuple where
  id : JSString
  k : SecureBigInt
  gamma : SecureBuffer
  chi : SecureBuffer
  timestamp : ℤ

structure PreComputationConfig where
  queueMaxSize : JSNumber

structure OnlineSignature where
  r : JSString
  s : JSString
  signatureHex : JSString

structure EngineState where
  config : PreComputationConfig
  tuples : List QueuedTuple
  queue : List ℕ
  /-- The tuples that `consumeTuple` has returned. -/
  handedOut : List ℕ
  isRunning : Bool
  totalGenerated : ℕ
  totalConsumed : ℕ
  /-- The calls of `stop` that wait for the workers. -/
  stopping : ℕ

/-- `this.queue.length >= this.config.queueMaxSize` -/
def EngineState.isFull (state : EngineState) : Bool :=
  state.config.queueMaxSize.leRat state.queue.length

def newEngine (config : PreComputationConfig) : EngineState := ⟨config, [], [], [], false, 0, 0, 0⟩

/-! ## The queue -/

def start (state : EngineState) : EngineState := { state with isRunning := true }

/-- `tuple.k.release()`, `tuple.gamma.release()`, `tuple.chi.release()`. -/
def QueuedTuple.release (tuple : QueuedTuple) : QueuedTuple :=
  { tuple with k := tuple.k.release, gamma := tuple.gamma.release, chi := tuple.chi.release }

def zeroizeQueue (state : EngineState) : EngineState :=
  { state with
    tuples := state.queue.foldl (fun tuples ref => tuples.modify ref QueuedTuple.release) state.tuples
    queue := [] }

/-- `stop` up to its wait. -/
def stop (state : EngineState) : EngineState :=
  { state with isRunning := false, stopping := state.stopping + 1 }

/-- `stop` after its wait. -/
def stopFinished (state : EngineState) : EngineState :=
  if 0 < state.stopping then zeroizeQueue { state with stopping := state.stopping - 1 } else state

def queuedTuple (raw : PreSignatureTuple) : Except JSError QueuedTuple := do
  let k ← SecureBigInt.fromSecureBuffer (SecureBuffer.fromHex raw.k)
  return ⟨raw.id, k, SecureBuffer.fromHex raw.gamma, SecureBuffer.fromHex raw.chi, raw.timestamp⟩

/-- `this.queue.push(tuple)`, for a new tuple. -/
def push (state : EngineState) (tuple : QueuedTuple) : EngineState :=
  { state with
    tuples := state.tuples ++ [tuple]
    queue := state.queue ++ [state.tuples.length]
    totalGenerated := state.totalGenerated + 1 }

/-- The loop of `ingestBatch`. -/
def ingestLoop (state : EngineState) : List PreSignatureTuple → EngineState × Except JSError Unit
  | [] => (state, .ok ())
  | raw :: batch =>
    if state.isFull then (state, .ok ())
    else
      match queuedTuple raw with
      | .error e => (state, .error e)
      | .ok tuple => ingestLoop (push state tuple) batch

def ingestBatch (state : EngineState) (batch : List PreSignatureTuple) :
    EngineState × Except JSError Unit :=
  if !state.isRunning then (state, .ok ())
  else if state.isFull then (state, .ok ())
  else ingestLoop state batch

def consumeTuple (state : EngineState) : EngineState × Option ℕ :=
  match state.queue with
  | [] => (state, none)
  | ref :: queue =>
    ({ state with
      queue
      handedOut := state.handedOut ++ [ref]
      totalConsumed := state.totalConsumed + 1 }, some ref)

/-! ## Online signing -/

variable {G : Type} [AddCommGroup G] (curve : Curve G)

/-- `bytesToBigInt` of this file: without bytes there is no number to read. -/
def bytesToBigInt (bytes : Bytes) : Except JSError ℤ :=
  if bytes = [] then .error ⟨.SyntaxError, js "Cannot convert 0x to a BigInt"⟩
  else .ok (BioFire.bytesToBigInt bytes)

/-- The body of the `try`. -/
def onlineSignature (messageHash : Bytes) (privateShare : SecureBigInt) (tuple : QueuedTuple) :
    Except JSError OnlineSignature := do
  let k ← tuple.k.value
  let gammaBytes ← tuple.gamma.bytes
  let gammaPoint ← curve.fromHex gammaBytes
  let r := modN curve.CURVE_ORDER (curve.x gammaPoint)
  let z ← bytesToBigInt messageHash
  let x_i ← privateShare.value
  let kInv ← modInverseOrder curve.CURVE_ORDER k
  let rx := modN curve.CURVE_ORDER (r * x_i)
  let zPlusRx := modN curve.CURVE_ORDER (z + rx)
  let s := modN curve.CURVE_ORDER (kInv * zPlusRx)
  let rHex := js "0x" ++ padStart64 (toString16 r)
  let sHex := js "0x" ++ padStart64 (toString16 s)
  return ⟨rHex, sHex, rHex ++ sHex.drop 2⟩

/-- `executeOnlineSign` on a tuple that `consumeTuple` has returned. The tuple is
released whether the body returns or throws. -/
def executeOnlineSign (state : EngineState) (messageHash : Bytes) (privateShare : SecureBigInt)
    (ref : ℕ) : EngineState × Option (Except JSError OnlineSignature) :=
  if ref ∈ state.handedOut then
    match state.tuples[ref]? with
    | none => (state, none)
    | some tuple =>
      ({ state with tuples := state.tuples.set ref tuple.release },
        some (onlineSignature curve messageHash privateShare tuple))
  else (state, none)

/-! ## Events -/

inductive EngineEvent where
  | start
  | stop
  | stopFinished
  | ingestBatch (batch : List PreSignatureTuple)
  | consumeTuple
  | executeOnlineSign (messageHash : Bytes) (privateShare : SecureBigInt) (ref : ℕ)

def step (state : EngineState) : EngineEvent → EngineState
  | .start => PreComputation.start state
  | .stop => PreComputation.stop state
  | .stopFinished => PreComputation.stopFinished state
  | .ingestBatch batch => (ingestBatch state batch).1
  | .consumeTuple => (consumeTuple state).1
  | .executeOnlineSign messageHash privateShare ref =>
    (executeOnlineSign curve state messageHash privateShare ref).1

variable {curve}

/-! ## The nonces that can be read -/

/-- The nonce of the tuple `ref` is `k` and not released. -/
def NonceAt (tuples : List QueuedTuple) (ref : ℕ) (k : ℤ) : Prop :=
  ∃ tuple, tuples[ref]? = some tuple ∧ tuple.k.value = .ok k

/-- The nonce that a worker sent. -/
def PreSignatureTuple.nonce (raw : PreSignatureTuple) : Except JSError ℤ :=
  (SecureBuffer.fromHex raw.k).asBigInt

theorem queuedTuple_ok {raw : PreSignatureTuple} {tuple : QueuedTuple}
    (h : queuedTuple raw = .ok tuple) : raw.nonce = tuple.k.value := by
  obtain ⟨secret, hsecret, h⟩ := bind_eq_ok h
  obtain ⟨k, hk, hsecret⟩ := bind_eq_ok hsecret
  obtain rfl := Except.ok.inj hsecret
  obtain rfl := Except.ok.inj h
  exact hk

theorem nonceAt_modify_release {tuples : List QueuedTuple} {ref ref' : ℕ} {k : ℤ}
    (h : NonceAt (tuples.modify ref QueuedTuple.release) ref' k) : NonceAt tuples ref' k := by
  obtain ⟨tuple, htuple, hk⟩ := h
  rw [List.getElem?_modify] at htuple
  obtain ⟨old, hold, hval⟩ := Option.map_eq_some_iff.mp htuple
  split at hval
  · rw [← hval] at hk
    exact absurd hk old.k.value_release
  · exact ⟨old, hold, hval ▸ hk⟩

theorem nonceAt_zeroized {queue : List ℕ} {tuples : List QueuedTuple} {ref : ℕ} {k : ℤ}
    (h : NonceAt (queue.foldl (fun tuples ref => tuples.modify ref QueuedTuple.release) tuples) ref k) :
    NonceAt tuples ref k := by
  induction queue generalizing tuples with
  | nil => exact h
  | cons first queue ih => exact nonceAt_modify_release (ih h)

theorem length_zeroized (queue : List ℕ) (tuples : List QueuedTuple) :
    (queue.foldl (fun tuples ref => tuples.modify ref QueuedTuple.release) tuples).length =
      tuples.length := by
  induction queue generalizing tuples with
  | nil => rfl
  | cons first queue ih => rw [List.foldl_cons, ih, List.length_modify]

theorem nonceAt_lt {tuples : List QueuedTuple} {ref : ℕ} {k : ℤ} (h : NonceAt tuples ref k) :
    ref < tuples.length := by
  obtain ⟨tuple, htuple, -⟩ := h
  exact (List.getElem?_eq_some_iff.mp htuple).1

/-! ## Ingested tuples -/

/-- The part of a batch that the loop of `ingestBatch` turns into tuples. -/
def accepted (state : EngineState) : List PreSignatureTuple → List PreSignatureTuple
  | [] => []
  | raw :: batch =>
    if state.isFull then []
    else
      match queuedTuple raw with
      | .error _ => []
      | .ok tuple => raw :: accepted (push state tuple) batch

/-- What an event ingests. -/
def ingestedBy (state : EngineState) : EngineEvent → List PreSignatureTuple
  | .ingestBatch batch => if !state.isRunning || state.isFull then [] else accepted state batch
  | _ => []

/-- An engine, with everything it has ingested. -/
structure LoggedEngine where
  engine : EngineState
  ingested : List PreSignatureTuple

variable (curve) in
def loggedStep (s : LoggedEngine) (event : EngineEvent) : LoggedEngine :=
  ⟨step curve s.engine event, s.ingested ++ ingestedBy s.engine event⟩

def newLog (config : PreComputationConfig) : LoggedEngine := ⟨newEngine config, []⟩

/-- **What the loop of `ingestBatch` leaves behind**: one tuple for each accepted one, with its
nonce, at the end of the queue. -/
theorem ingestLoop_eq (state : EngineState) (batch : List PreSignatureTuple) :
    ∃ new, List.Forall₂ (fun raw tuple => queuedTuple raw = .ok tuple) (accepted state batch) new ∧
      (ingestLoop state batch).1 = { state with
        tuples := state.tuples ++ new
        queue := state.queue ++ List.range' state.tuples.length new.length
        totalGenerated := state.totalGenerated + new.length } := by
  induction batch generalizing state with
  | nil => exact ⟨[], .nil, by simp [ingestLoop]⟩
  | cons raw batch ih =>
    rw [ingestLoop, accepted]
    split
    · exact ⟨[], .nil, by simp⟩
    · cases htuple : queuedTuple raw with
      | error e => exact ⟨[], .nil, by simp⟩
      | ok tuple =>
        obtain ⟨new, hall, hnew⟩ := ih (push state tuple)
        refine ⟨tuple :: new, .cons htuple hall, ?_⟩
        dsimp only
        rw [hnew, push]
        simp [List.range'_succ, Nat.add_assoc, Nat.add_comm 1]

variable (curve) in
/-- A batch adds the tuples of its entries, up to the first that is refused. -/
theorem ingestBatch_tuples (state : EngineState) (batch : List PreSignatureTuple) : ∃ new,
    List.Forall₂ (fun raw tuple => queuedTuple raw = .ok tuple)
      (ingestedBy state (.ingestBatch batch)) new ∧
    (step curve state (.ingestBatch batch)).tuples = state.tuples ++ new := by
  simp only [step, PreComputation.ingestBatch, ingestedBy]
  cases hrunning : state.isRunning
  · exact ⟨[], .nil, (List.append_nil _).symm⟩
  · cases hfull : state.isFull
    · obtain ⟨new, hall, hnew⟩ := ingestLoop_eq state batch
      have htuples : (ingestLoop state batch).1.tuples = state.tuples ++ new := by rw [hnew]
      exact ⟨new, hall, htuples⟩
    · exact ⟨[], .nil, (List.append_nil _).symm⟩

variable (curve) in
/-- **One event** adds a tuple for each ingested one and makes no older nonce readable. -/
theorem step_tuples (state : EngineState) (event : EngineEvent) :
    ∃ old new, (step curve state event).tuples = old ++ new ∧
      old.length = state.tuples.length ∧
      (∀ ref k, NonceAt old ref k → NonceAt state.tuples ref k) ∧
      List.Forall₂ (fun raw tuple => queuedTuple raw = .ok tuple) (ingestedBy state event) new := by
  have hsame : ∀ {tuples : List QueuedTuple}, tuples = state.tuples →
      ∃ old new, tuples = old ++ new ∧ old.length = state.tuples.length ∧
        (∀ ref k, NonceAt old ref k → NonceAt state.tuples ref k) ∧
        List.Forall₂ (fun raw tuple => queuedTuple raw = .ok tuple) [] new := by
    rintro tuples rfl
    exact ⟨state.tuples, [], (List.append_nil _).symm, rfl, fun _ _ h => h, .nil⟩
  cases event with
  | start => exact hsame rfl
  | stop => exact hsame rfl
  | stopFinished =>
    simp only [step, PreComputation.stopFinished]
    split
    · exact ⟨_, [], (List.append_nil _).symm, length_zeroized _ _, fun _ _ => nonceAt_zeroized, .nil⟩
    · exact hsame rfl
  | consumeTuple =>
    simp only [step, PreComputation.consumeTuple]
    split <;> exact hsame rfl
  | executeOnlineSign messageHash privateShare ref =>
    simp only [step, PreComputation.executeOnlineSign]
    split
    · split
      · exact hsame rfl
      next tuple htuple =>
        have hmodify : state.tuples.set ref tuple.release =
            state.tuples.modify ref QueuedTuple.release := by
          rw [List.modify_eq_set_getElem?, htuple]
          rfl
        refine ⟨_, [], (List.append_nil _).symm, by rw [List.length_set], fun ref' k h => ?_, .nil⟩
        exact nonceAt_modify_release (hmodify ▸ h)
    · exact hsame rfl
  | ingestBatch batch =>
    obtain ⟨new, hall, htuples⟩ := ingestBatch_tuples curve state batch
    exact ⟨state.tuples, new, htuples, rfl, fun _ _ h => h, hall⟩

/-! ## Runs -/

/-- Every readable nonce is the nonce of the ingested tuple at its position. -/
structure NonceInvariant (s : LoggedEngine) : Prop where
  length : s.engine.tuples.length = s.ingested.length
  nonce : ∀ ref k, NonceAt s.engine.tuples ref k →
    ∃ raw, s.ingested[ref]? = some raw ∧ raw.nonce = .ok k

/-- `s'` is reached from `s`: nothing ingested is forgotten, and no old nonce becomes
readable again. -/
structure Later (s s' : LoggedEngine) : Prop where
  ingested : s.ingested <+: s'.ingested
  length : s.engine.tuples.length ≤ s'.engine.tuples.length
  nonce : ∀ ref k, ref < s.engine.tuples.length → NonceAt s'.engine.tuples ref k →
    NonceAt s.engine.tuples ref k

theorem nonceInvariant_step {s : LoggedEngine} (h : NonceInvariant s) (event : EngineEvent) :
    NonceInvariant (loggedStep curve s event) := by
  obtain ⟨old, new, htuples, hlength, hold, hnew⟩ := step_tuples curve s.engine event
  refine ⟨?_, fun ref k hk => ?_⟩
  · rw [loggedStep, htuples, List.length_append, List.length_append, hlength, h.length,
      hnew.length_eq]
  · obtain ⟨tuple, htuple, hval⟩ := hk
    rw [loggedStep, htuples, List.getElem?_append] at htuple
    rw [loggedStep, List.getElem?_append, ← h.length, ← hlength]
    split at htuple
    next hlt =>
      rw [if_pos hlt]
      exact h.nonce ref k (hold ref k ⟨tuple, htuple, hval⟩)
    next hge =>
      rw [if_neg hge]
      obtain ⟨hlt, hget⟩ := List.getElem?_eq_some_iff.mp htuple
      have hraw := hnew.length_eq ▸ hlt
      refine ⟨_, List.getElem?_eq_getElem hraw, ?_⟩
      have hmatch := queuedTuple_ok (hnew.get hraw hlt)
      simp only [List.get_eq_getElem] at hmatch
      rw [hmatch, hget, hval]

variable (curve) in
theorem later_step (s : LoggedEngine) (event : EngineEvent) : Later s (loggedStep curve s event) := by
  obtain ⟨old, new, htuples, hlength, hold, -⟩ := step_tuples curve s.engine event
  refine ⟨List.prefix_append _ _, ?_, fun ref k hlt hk => ?_⟩
  · rw [loggedStep, htuples, List.length_append]
    omega
  · obtain ⟨tuple, htuple, hval⟩ := hk
    rw [loggedStep, htuples, List.getElem?_append_left (by omega)] at htuple
    exact hold ref k ⟨tuple, htuple, hval⟩

theorem Later.trans {s₁ s₂ s₃ : LoggedEngine} (h₁ : Later s₁ s₂) (h₂ : Later s₂ s₃) :
    Later s₁ s₃ :=
  ⟨h₁.ingested.trans h₂.ingested, h₁.length.trans h₂.length, fun ref k hlt hk =>
    h₁.nonce ref k hlt (h₂.nonce ref k (hlt.trans_le h₁.length) hk)⟩

variable (curve) in
theorem later_run (s : LoggedEngine) (events : List EngineEvent) :
    Later s (run (loggedStep curve) s events) :=
  run_related (R := Later) (fun _ => ⟨List.prefix_refl _, le_rfl, fun _ _ _ h => h⟩) Later.trans
    (later_step curve) events s

variable (curve) in
theorem nonceInvariant_run (config : PreComputationConfig) (events : List EngineEvent) :
    NonceInvariant (run (loggedStep curve) (newLog config) events) := by
  have hstart : NonceInvariant (newLog config) := by
    refine ⟨rfl, ?_⟩
    rintro ref k ⟨tuple, htuple, -⟩
    cases htuple
  exact run_induction (p := fun _ _ => True) (fun _ => NonceInvariant) hstart
    (fun _ event h _ => nonceInvariant_step h event) fun _ _ _ _ => trivial

/-! ## Single use -/

variable (curve) in
/-- The event is a call of `executeOnlineSign` on a returned tuple with the nonce `k`, and
it returns a signature. -/
def UsesNonce (k : ℤ) (state : EngineState) (event : EngineEvent) : Prop :=
  ∃ messageHash privateShare ref tuple signature,
    event = .executeOnlineSign messageHash privateShare ref ∧
    state.tuples[ref]? = some tuple ∧ tuple.k.value = .ok k ∧
    (executeOnlineSign curve state messageHash privateShare ref).2 = some (.ok signature)

/-- A call that uses a nonce found it readable and leaves it released. -/
theorem nonceAt_of_uses {state : EngineState} {event : EngineEvent} {k : ℤ}
    (h : UsesNonce curve k state event) :
    ∃ ref, NonceAt state.tuples ref k ∧ ∀ k', ¬ NonceAt (step curve state event).tuples ref k' := by
  obtain ⟨messageHash, privateShare, ref, tuple, signature, rfl, htuple, hk, hsign⟩ := h
  refine ⟨ref, ⟨tuple, htuple, hk⟩, ?_⟩
  rintro k' ⟨tuple', htuple', hk'⟩
  have hlt := (List.getElem?_eq_some_iff.mp htuple).1
  rw [executeOnlineSign] at hsign
  split at hsign
  next hhanded =>
    simp only [step, executeOnlineSign, if_pos hhanded, htuple] at htuple'
    rw [List.getElem?_set_self hlt] at htuple'
    rw [← Option.some.inj htuple'] at hk'
    exact tuple.k.value_release hk'
  · cases hsign

/-- **Single use.** If the ingested nonces are distinct, then no two calls of a run that
return a signature use the same nonce. -/
theorem nonce_single_use {config : PreComputationConfig} {events : List EngineEvent}
    (hdistinct : ((run (loggedStep curve) (newLog config) events).ingested.map
      PreSignatureTuple.nonce).Nodup)
    {past between rest : List EngineEvent} {event₁ event₂ : EngineEvent}
    (hcut : events = past ++ event₁ :: (between ++ event₂ :: rest)) {k₁ k₂ : ℤ}
    (h₁ : UsesNonce curve k₁ (run (loggedStep curve) (newLog config) past).engine event₁)
    (h₂ : UsesNonce curve k₂
      (run (loggedStep curve) (newLog config) (past ++ event₁ :: between)).engine event₂) :
    k₁ ≠ k₂ := by
  let s₁ := run (loggedStep curve) (newLog config) past
  let s₂ := run (loggedStep curve) (newLog config) (past ++ event₁ :: between)
  have hrun : s₂ = run (loggedStep curve) (loggedStep curve s₁ event₁) between := run_append _ _
  have hend : run (loggedStep curve) (newLog config) events =
      run (loggedStep curve) s₂ (event₂ :: rest) := by
    rw [hcut, ← List.cons_append, ← List.append_assoc, run_append]
  have hlater₂ : Later s₂ (run (loggedStep curve) (newLog config) events) := hend ▸ later_run curve s₂ _
  have hlater : Later (loggedStep curve s₁ event₁) s₂ := hrun ▸ later_run curve _ between
  have hlater₁ := ((later_step curve s₁ event₁).trans hlater).trans hlater₂
  obtain ⟨ref₁, hnonce₁, hreleased⟩ := nonceAt_of_uses h₁
  obtain ⟨ref₂, hnonce₂, -⟩ := nonceAt_of_uses h₂
  obtain ⟨raw₁, hraw₁, hk₁⟩ := (nonceInvariant_run curve config past).nonce ref₁ k₁ hnonce₁
  obtain ⟨raw₂, hraw₂, hk₂⟩ := (nonceInvariant_run curve config _).nonce ref₂ k₂ hnonce₂
  have href : ref₁ ≠ ref₂ := by
    rintro rfl
    have hlt := (nonceAt_lt hnonce₁).trans_le (later_step curve s₁ event₁).length
    exact hreleased k₂ (hlater.nonce ref₁ k₂ hlt hnonce₂)
  rintro rfl
  have hget : ∀ {s : LoggedEngine} {ref : ℕ} {raw : PreSignatureTuple},
      Later s (run (loggedStep curve) (newLog config) events) → s.ingested[ref]? = some raw →
      ((run (loggedStep curve) (newLog config) events).ingested.map
        PreSignatureTuple.nonce)[ref]? = some raw.nonce := by
    intro s ref raw hlater hraw
    have hlt := (List.getElem?_eq_some_iff.mp hraw).1
    obtain ⟨more, hmore⟩ := hlater.ingested
    rw [← hmore, List.getElem?_map, List.getElem?_append_left hlt, hraw]
    rfl
  have hget₁ := hget hlater₁ hraw₁
  have hget₂ := hget hlater₂ hraw₂
  rw [hk₁] at hget₁
  rw [hk₂] at hget₂
  obtain ⟨hlt₁, hval₁⟩ := List.getElem?_eq_some_iff.mp hget₁
  obtain ⟨hlt₂, hval₂⟩ := List.getElem?_eq_some_iff.mp hget₂
  exact href ((hdistinct.getElem_inj_iff).mp (hval₁.trans hval₂.symm))

/-! ## Two signatures -/

def testTuple (k gamma : String) : PreSignatureTuple := ⟨js k, js gamma, js "0x00", js "id", 0⟩

/-- Two tuples are ingested, handed out and used. -/
def twoSignatures : List EngineEvent :=
  [.start, .ingestBatch [testTuple "0x03" "0x042315", testTuple "0x05" "0x040c0c"],
    .consumeTuple, .consumeTuple, .executeOnlineSign [1] (.ofInt 7) 0,
    .executeOnlineSign [2] (.ofInt 7) 1]

theorem nonce_single_use_two :
    UsesNonce Curve.curve43 3
        (run (loggedStep Curve.curve43) (newLog ⟨.ofInt 5000⟩) (twoSignatures.take 4)).engine
        (.executeOnlineSign [1] (.ofInt 7) 0) ∧
      UsesNonce Curve.curve43 5
        (run (loggedStep Curve.curve43) (newLog ⟨.ofInt 5000⟩) (twoSignatures.take 5)).engine
        (.executeOnlineSign [2] (.ofInt 7) 1) ∧ (3 : ℤ) ≠ 5 := by
  have h₁ : UsesNonce Curve.curve43 3
      (run (loggedStep Curve.curve43) (newLog ⟨.ofInt 5000⟩) (twoSignatures.take 4)).engine
      (.executeOnlineSign [1] (.ofInt 7) 0) :=
    ⟨_, _, 0, _, _, rfl, by with_unfolding_all rfl, rfl, by with_unfolding_all rfl⟩
  have h₂ : UsesNonce Curve.curve43 5
      (run (loggedStep Curve.curve43) (newLog ⟨.ofInt 5000⟩) (twoSignatures.take 5)).engine
      (.executeOnlineSign [2] (.ofInt 7) 1) :=
    ⟨_, _, 1, _, _, rfl, by with_unfolding_all rfl, rfl, by with_unfolding_all rfl⟩
  have hdistinct : ((run (loggedStep Curve.curve43) (newLog ⟨.ofInt 5000⟩) twoSignatures).ingested.map
      PreSignatureTuple.nonce) = [.ok 3, .ok 5] := by
    with_unfolding_all rfl
  have hcut : twoSignatures = twoSignatures.take 4 ++ .executeOnlineSign [1] (.ofInt 7) 0 ::
      ([] ++ [.executeOnlineSign [2] (.ofInt 7) 1]) := rfl
  exact ⟨h₁, h₂, nonce_single_use (by rw [hdistinct]; simp) hcut h₁ h₂⟩

end BioFire.PreComputation
