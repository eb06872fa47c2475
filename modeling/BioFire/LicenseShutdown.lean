import BioFire.Heartbeat
import BioFire.LicenseKernel

/-!
# Shutdown of the license kernel (`src/lib/licensing/license_kernel.ts`)

The secret of a `LicenseVerificationKernel` and what is computed under it: heartbeats,
on request and by timers, and signatures of telemetry. Every initialization starts a
timer. `shutdown` clears the latest one and fills the secret with zeros; the license
stays.

* `timersLicensed_step`, `timersStopped_step`: what the timers and the license have in
  common;
* `secret_run`: under which secret a run computes;
* `silent_after_shutdown_iff`: when nothing is computed after a shutdown.
-/

namespace BioFire.Licensing

open Runs

/-! ## State -/

/-- `Buffer.from(hex, 'hex')`: the bytes in front of the first pair that is none. -/
def bufferFromHex : JSString → Bytes
  | c :: d :: rest =>
    match hexDigitValue c, hexDigitValue d with
    | some high, some low => UInt8.ofNat (high * 16 + low) :: bufferFromHex rest
    | _, _ => []
  | _ => []

/-- A kernel with its timers. `hwFingerprint` and the two properties after it belong to
the object `state`. -/
structure HeartbeatKernel where
  nodeId : JSString
  kernel : KernelState
  hwFingerprint : JSString
  lastHeartbeatAt : ℤ
  lastHeartbeatToken : Option HeartbeatToken
  heartbeatSecret : Bytes
  heartbeatTimer : Option ℕ
  /-- The timers that were not cleared; `setInterval` numbers them in their order. -/
  timers : List ℕ
  nextTimer : ℕ

/-- The constructor. -/
def newHeartbeatKernel (nodeId heartbeatSecretHex : JSString) : HeartbeatKernel where
  nodeId := nodeId
  kernel := newKernel
  hwFingerprint := []
  lastHeartbeatAt := 0
  lastHeartbeatToken := none
  heartbeatSecret := bufferFromHex (removeHexPrefix heartbeatSecretHex)
  heartbeatTimer := none
  timers := []
  nextTimer := 0

/-- What happens to a kernel. A call of `LicenseKernel` comes with the fingerprint that
`generateHardwareFingerprint` found for it; the other events with the results of
`Date.now()` and `Math.random()`. -/
inductive HeartbeatEvent where
  | call (event : KernelEvent) (hwFingerprint : JSString)
  | getCurrentHeartbeat (now : ℤ)
  | exportTelemetry (draws : Fin 5 → JSNumber) (now exportedAt : ℤ)
  | tick (timer : ℕ) (now finishedAt : ℤ)
  | shutdown

variable (oracles : HeartbeatOracles)

/-! ## Calls -/

/-- The heartbeat that a license in use gives. -/
def heartbeat (s : HeartbeatKernel) (license : LicenseState) (now : ℤ) : HeartbeatToken :=
  generateHeartbeat oracles s.nodeId s.hwFingerprint
    [(js "tx", license.usageCounters.totalTransactions),
      (js "vol", license.usageCounters.totalVolumeUSD)]
    s.heartbeatSecret now

def getCurrentHeartbeat (s : HeartbeatKernel) (now : ℤ) : Except JSError HeartbeatToken :=
  match s.kernel.state with
  | none => .error ⟨.Error, js "License not initialized"⟩
  | some license => .ok (heartbeat oracles s license now)

def exportTelemetry (s : HeartbeatKernel) (draws : Fin 5 → JSNumber) (now exportedAt : ℤ) :
    Except JSError TelemetryExport :=
  match s.kernel.state with
  | none => .error ⟨.Error, js "License not initialized"⟩
  | some license => do
    let payload := generateTelemetry oracles license.blob.customerId license.blob.licenseId
      { totalTransactions := license.usageCounters.totalTransactions
        totalVolumeUSD := license.usageCounters.totalVolumeUSD
        activeNodes := .finite 1
        avgSigningLatencyMs := .finite 150
        errorRatePercent := .ofRat (1 / 10)
        uniqueChains := .finite 3
        dkgCount := license.usageCounters.dkgCount
        signCount := license.usageCounters.signCount
        refreshCount := license.usageCounters.refreshCount }
      license.usageCounters.periodStart (.ofInt now) draws
    let payloadBytes := textEncode payload.toJson.stringify
    let signature ← oracles.ed25519Sign payloadBytes s.heartbeatSecret
    return ⟨payload, js "0x" ++ bytesToHex signature, exportedAt⟩

def startHeartbeat (s : HeartbeatKernel) : HeartbeatKernel :=
  { s with
    heartbeatTimer := some s.nextTimer
    timers := s.timers ++ [s.nextTimer]
    nextTimer := s.nextTimer + 1 }

def HeartbeatKernel.record (s : HeartbeatKernel) (lastHeartbeatAt : ℤ)
    (lastHeartbeatToken : Option HeartbeatToken) : HeartbeatKernel :=
  { s with lastHeartbeatAt := lastHeartbeatAt, lastHeartbeatToken := lastHeartbeatToken }

/-- The callback of a timer; a cleared timer does not run it. -/
def heartbeatTick (s : HeartbeatKernel) (timer : ℕ) (now finishedAt : ℤ) :
    HeartbeatKernel × Option HeartbeatToken :=
  if timer ∈ s.timers then
    match s.kernel.state with
    | none => (s, none)
    | some license =>
      (s.record finishedAt (some (heartbeat oracles s license now)),
        some (heartbeat oracles s license now))
  else (s, none)

def shutdown (s : HeartbeatKernel) : HeartbeatKernel :=
  let stopped := match s.heartbeatTimer with
    | some timer =>
      { s with timers := s.timers.filter (fun t => t ≠ timer), heartbeatTimer := none }
    | none => s
  { stopped with heartbeatSecret := List.replicate s.heartbeatSecret.length 0 }

/-- A call; the end of a successful `initializeLicense` starts a timer. -/
def kernelCall (s : HeartbeatKernel) (event : KernelEvent) (hwFingerprint : JSString) :
    HeartbeatKernel :=
  match event with
  | .finishInitialization k hardware now =>
    match finishInitialization s.kernel k hardware now with
    | (kernel, some (.ok _)) =>
      startHeartbeat { s.record 0 none with kernel := kernel, hwFingerprint := hwFingerprint }
    | (kernel, _) => { s with kernel := kernel }
  | event => { s with kernel := step oracles.toLicenseOracles s.kernel event }

def heartbeatStep (s : HeartbeatKernel) : HeartbeatEvent → HeartbeatKernel
  | .call event hwFingerprint => kernelCall oracles s event hwFingerprint
  | .getCurrentHeartbeat _ => s
  | .exportTelemetry _ _ _ => s
  | .tick timer now finishedAt => (heartbeatTick oracles s timer now finishedAt).1
  | .shutdown => shutdown s

/-- What is computed under the secret. -/
inductive SecretUse where
  | heartbeat (token : HeartbeatToken)
  | telemetry (telemetry : TelemetryExport)

/-- What an event computes under the secret. -/
def secretUse (s : HeartbeatKernel) : HeartbeatEvent → Option SecretUse
  | .call _ _ => none
  | .getCurrentHeartbeat now => (getCurrentHeartbeat oracles s now).toOption.map .heartbeat
  | .exportTelemetry draws now exportedAt =>
    (exportTelemetry oracles s draws now exportedAt).toOption.map .telemetry
  | .tick timer now finishedAt => (heartbeatTick oracles s timer now finishedAt).2.map .heartbeat
  | .shutdown => none

/-! ## What one call can do -/

/-- The call ends an initialization with success. -/
def Completes (kernel : KernelState) : KernelEvent → Prop
  | .finishInitialization k hardware _ => ∃ init check,
    kernel.pending[k]? = some (some init) ∧ hardware = some check ∧
      hardwareAccepted init.blob check = true
  | _ => False

theorem finishInitialization_result (kernel : KernelState) (k : ℕ)
    (hardware : Option HardwareCheck) (now : ℤ) :
    (¬ Completes kernel (.finishInitialization k hardware now) ∧
        ∀ license, (finishInitialization kernel k hardware now).2 ≠ some (.ok license)) ∨
      Completes kernel (.finishInitialization k hardware now) ∧ ∃ license waiting,
        finishInitialization kernel k hardware now =
          (⟨some license, waiting⟩, some (.ok license)) := by
  rw [finishInitialization]
  split
  next init hinit =>
    cases hardware with
    | none =>
      refine Or.inl ⟨?_, fun license h => by cases h⟩
      rintro ⟨_, _, _, h, _⟩
      cases h
    | some check =>
      dsimp only
      split
      next hrejected =>
        refine Or.inl ⟨?_, fun license h => by cases h⟩
        rintro ⟨init', check', hinit', ⟨rfl⟩, haccepted⟩
        obtain rfl := Option.some.inj (Option.some.inj (hinit.symm.trans hinit'))
        rw [haccepted] at hrejected
        cases hrejected
      next haccepted =>
        rw [Bool.not_eq_true, Bool.not_eq_false'] at haccepted
        exact Or.inr ⟨⟨init, check, hinit, rfl, haccepted⟩, _, _, rfl⟩
  next hnone =>
    refine Or.inl ⟨?_, fun license h => by cases h⟩
    rintro ⟨init, -, hinit, -⟩
    exact hnone init hinit

/-- **What a call does**: it starts a timer exactly when it completes an initialization. -/
theorem kernelCall_cases (s : HeartbeatKernel) (event : KernelEvent) (hwFingerprint : JSString) :
    (¬ Completes s.kernel event ∧ kernelCall oracles s event hwFingerprint =
        { s with kernel := step oracles.toLicenseOracles s.kernel event }) ∨
      Completes s.kernel event ∧ ∃ license waiting,
        kernelCall oracles s event hwFingerprint = startHeartbeat { s.record 0 none with
          kernel := ⟨some license, waiting⟩, hwFingerprint := hwFingerprint } := by
  cases event with
  | finishInitialization k hardware now =>
    rcases finishInitialization_result s.kernel k hardware now with
      ⟨hcompletes, hresult⟩ | ⟨hcompletes, license, waiting, hresult⟩
    · refine Or.inl ⟨hcompletes, ?_⟩
      rw [kernelCall, step]
      split
      next license heq => exact absurd (congrArg Prod.snd heq) (hresult license)
      next heq => rw [heq]
    · refine Or.inr ⟨hcompletes, license, waiting, ?_⟩
      rw [kernelCall, hresult]
  | _ => exact Or.inl ⟨not_false, rfl⟩

theorem isSome_step {kernel : KernelState} (h : kernel.state.isSome) (event : KernelEvent) :
    (step oracles.toLicenseOracles kernel event).state.isSome := by
  cases event with
  | initializeLicense blob now =>
    rcases initializeLicense_cases oracles.toLicenseOracles kernel blob now with hsame | ⟨-, hnew⟩
    · rwa [step, hsame]
    · rwa [step, hnew]
  | finishInitialization k hardware now =>
    rcases finishInitialization_cases kernel k hardware now with
      hsame | hset | ⟨init, check, -, -, -, hnew⟩
    · rwa [step, hsame]
    · rwa [step, hset]
    · rw [step, hnew]
      rfl
  | checkFeature feature now => exact h
  | recordTransaction volumeUSD now =>
    rcases recordTransaction_cases kernel volumeUSD with ⟨⟨e, herror⟩, -⟩ | ⟨license, -, -, hrecord⟩
    · rwa [step, herror]
    · rw [step, hrecord]
      rfl
  | recordCeremony type now => rwa [step, recordCeremony, Option.isSome_map]

theorem secretUse_tick {s : HeartbeatKernel} {timer : ℕ} (htimer : timer ∈ s.timers)
    (hstate : s.kernel.state.isSome) (now finishedAt : ℤ) :
    secretUse oracles s (.tick timer now finishedAt) ≠ none := by
  obtain ⟨license, hlicense⟩ := Option.isSome_iff_exists.mp hstate
  rw [secretUse, heartbeatTick, if_pos htimer, hlicense]
  exact Option.some_ne_none _

theorem secretUse_getCurrentHeartbeat (s : HeartbeatKernel) (now : ℤ) :
    secretUse oracles s (.getCurrentHeartbeat now) = none ↔ s.kernel.state = none := by
  rw [secretUse, getCurrentHeartbeat]
  cases s.kernel.state with
  | none => exact iff_of_true rfl rfl
  | some license => exact iff_of_false (Option.some_ne_none _) (Option.some_ne_none _)

/-- `ed25519.sign` takes secrets of 32 bytes and throws for the others. -/
def Signs32Bytes : Prop :=
  ∀ message secret, (∃ signature, oracles.ed25519Sign message secret = .ok signature) ↔
    secret.length = 32

variable {oracles}

theorem secretUse_exportTelemetry (hsign : Signs32Bytes oracles) (s : HeartbeatKernel)
    (draws : Fin 5 → JSNumber) (now exportedAt : ℤ) :
    secretUse oracles s (.exportTelemetry draws now exportedAt) = none ↔
      s.kernel.state = none ∨ s.heartbeatSecret.length ≠ 32 := by
  rw [secretUse, exportTelemetry]
  cases s.kernel.state with
  | none => exact iff_of_true rfl (Or.inl rfl)
  | some license =>
    have hsigned : ∀ (signed : Except JSError Bytes) (f : Bytes → TelemetryExport),
        (do return f (← signed)).toOption.map SecretUse.telemetry = none ↔
          ¬ ∃ signature, signed = .ok signature := by
      intro signed f
      cases signed with
      | error e =>
        refine iff_of_true rfl ?_
        rintro ⟨signature, h⟩
        cases h
      | ok signature => exact iff_of_false (Option.some_ne_none _) (not_not_intro ⟨signature, rfl⟩)
    rw [or_iff_right (Option.some_ne_none license), ne_eq, ← hsign]
    exact hsigned _ _

/-! ## Runs -/

/-- A kernel, and whether `shutdown` was called. -/
structure WatchedKernel where
  kernel : HeartbeatKernel
  stopped : Bool

def newWatchedKernel (nodeId heartbeatSecretHex : JSString) : WatchedKernel :=
  ⟨newHeartbeatKernel nodeId heartbeatSecretHex, false⟩

def HeartbeatEvent.isShutdown : HeartbeatEvent → Bool
  | shutdown => true
  | _ => false

def HeartbeatEvent.isTick : HeartbeatEvent → Bool
  | tick _ _ _ => true
  | _ => false

variable (oracles) in
def watchStep (w : WatchedKernel) (event : HeartbeatEvent) : WatchedKernel :=
  ⟨heartbeatStep oracles w.kernel event, event.isShutdown || w.stopped⟩

/-- The events of a run without those of the timers. -/
def callsOf (events : List HeartbeatEvent) : List HeartbeatEvent :=
  events.filter fun event => !event.isTick

variable (oracles) in
/-- After a shutdown the event computes nothing under the secret. -/
def Silent (w : WatchedKernel) (event : HeartbeatEvent) : Prop :=
  w.stopped = true → secretUse oracles w.kernel event = none

/-- A shutdown meets no timer but the one that it clears. After it no initialization
completes, and what needs the secret is called without a license or, for telemetry, with
a secret that is too long or too short to sign. -/
def CleanCall (w : WatchedKernel) : HeartbeatEvent → Prop
  | .call event _ => w.stopped = true → ¬ Completes w.kernel.kernel event
  | .getCurrentHeartbeat _ => w.stopped = true → w.kernel.kernel.state = none
  | .exportTelemetry _ _ _ => w.stopped = true →
    w.kernel.kernel.state = none ∨ w.kernel.heartbeatSecret.length ≠ 32
  | .tick _ _ _ => True
  | .shutdown => ∀ timer ∈ w.kernel.timers, w.kernel.heartbeatTimer = some timer

/-! ## The secret -/

/-- The secret is the one of the constructor, and as many zeros after a shutdown. -/
def SecretInvariant (secret : Bytes) (w : WatchedKernel) : Prop :=
  w.kernel.heartbeatSecret =
    if w.stopped = true then List.replicate secret.length 0 else secret

theorem heartbeatSecret_kernelCall (s : HeartbeatKernel) (event : KernelEvent)
    (hwFingerprint : JSString) :
    (kernelCall oracles s event hwFingerprint).heartbeatSecret = s.heartbeatSecret := by
  rcases kernelCall_cases oracles s event hwFingerprint with ⟨-, hcall⟩ | ⟨-, _, _, hcall⟩
  · rw [hcall]
  · rw [hcall]
    rfl

variable (oracles) in
theorem heartbeatTick_fst (s : HeartbeatKernel) (timer : ℕ) (now finishedAt : ℤ) :
    ∃ time token, (heartbeatTick oracles s timer now finishedAt).1 = s.record time token := by
  rw [heartbeatTick]
  split
  · cases s.kernel.state with
    | none => exact ⟨_, _, rfl⟩
    | some license => exact ⟨_, _, rfl⟩
  · exact ⟨_, _, rfl⟩

variable (oracles) in
/-- An event is a call or a shutdown, or it leaves at most a record behind. -/
theorem watchStep_cases (w : WatchedKernel) (event : HeartbeatEvent) :
    (∃ time token, watchStep oracles w event = ⟨w.kernel.record time token, w.stopped⟩) ∨
      (∃ kernelEvent hwFingerprint, event = .call kernelEvent hwFingerprint) ∨
      event = .shutdown := by
  cases event with
  | call event hwFingerprint => exact Or.inr (Or.inl ⟨event, hwFingerprint, rfl⟩)
  | getCurrentHeartbeat now => exact Or.inl ⟨_, _, rfl⟩
  | exportTelemetry draws now exportedAt => exact Or.inl ⟨_, _, rfl⟩
  | tick timer now finishedAt =>
    obtain ⟨time, token, htick⟩ := heartbeatTick_fst oracles w.kernel timer now finishedAt
    refine Or.inl ⟨time, token, ?_⟩
    rw [watchStep, heartbeatStep, htick]
    rfl
  | shutdown => exact Or.inr (Or.inr rfl)

theorem shutdown_eq (s : HeartbeatKernel) : shutdown s =
    { s with
      heartbeatTimer := none
      timers := s.timers.filter fun timer => s.heartbeatTimer ≠ some timer
      heartbeatSecret := List.replicate s.heartbeatSecret.length 0 } := by
  rw [shutdown]
  cases h : s.heartbeatTimer with
  | none => simp [h]
  | some timer => simp [eq_comm]

theorem secretInvariant_step {secret : Bytes} {w : WatchedKernel}
    (h : SecretInvariant secret w) (event : HeartbeatEvent) :
    SecretInvariant secret (watchStep oracles w event) := by
  rw [SecretInvariant] at h ⊢
  rcases watchStep_cases oracles w event with ⟨time, token, hrecord⟩ |
    ⟨event, hwFingerprint, rfl⟩ | rfl
  · rw [hrecord]
    exact h
  · exact (heartbeatSecret_kernelCall w.kernel event hwFingerprint).trans h
  · have hlength : w.kernel.heartbeatSecret.length = secret.length := by
      rw [h]
      split
      · exact List.length_replicate
      · rfl
    rw [watchStep, heartbeatStep, shutdown_eq, hlength]
    rfl

/-- **The secret of a run.** -/
theorem secret_run (nodeId heartbeatSecretHex : JSString) (events : List HeartbeatEvent) :
    SecretInvariant (bufferFromHex (removeHexPrefix heartbeatSecretHex))
      (run (watchStep oracles) (newWatchedKernel nodeId heartbeatSecretHex) events) := by
  refine run_invariant (SecretInvariant _) ?_ (fun _ event h => secretInvariant_step h event) events
  exact (if_neg Bool.false_ne_true).symm

/-! ## Timers -/

/-- Timers run on a license. -/
def TimersLicensed (w : WatchedKernel) : Prop :=
  ∀ timer ∈ w.kernel.timers, w.kernel.kernel.state.isSome

/-- **Step.** Timers run on a license. -/
theorem timersLicensed_step {w : WatchedKernel} (h : TimersLicensed w) (event : HeartbeatEvent) :
    TimersLicensed (watchStep oracles w event) := by
  rcases watchStep_cases oracles w event with ⟨time, token, hrecord⟩ |
    ⟨event, hwFingerprint, rfl⟩ | rfl
  · rw [hrecord]
    exact h
  · rw [watchStep, heartbeatStep]
    rcases kernelCall_cases oracles w.kernel event hwFingerprint with ⟨-, hcall⟩ | ⟨-, _, _, hcall⟩
    · rw [hcall]
      intro timer htimer
      exact isSome_step oracles (h timer htimer) event
    · rw [hcall]
      intro timer _
      rfl
  · rw [watchStep, heartbeatStep, shutdown_eq]
    intro timer htimer
    exact h timer (List.mem_of_mem_filter htimer)

/-- No timer runs after a shutdown. -/
def TimersStopped (w : WatchedKernel) : Prop := w.stopped = true → w.kernel.timers = []

/-- **Step.** A call that meets its condition leaves no timer behind. -/
theorem timersStopped_step {w : WatchedKernel} (h : TimersStopped w) {event : HeartbeatEvent}
    (hclean : CleanCall w event) : TimersStopped (watchStep oracles w event) := by
  rcases watchStep_cases oracles w event with ⟨time, token, hrecord⟩ |
    ⟨event, hwFingerprint, rfl⟩ | rfl
  · rw [hrecord]
    exact h
  · rw [watchStep, heartbeatStep]
    rcases kernelCall_cases oracles w.kernel event hwFingerprint with
      ⟨-, hcall⟩ | ⟨hcompletes, -⟩
    · rw [hcall]
      exact h
    · intro hstopped
      exact absurd hcompletes (hclean hstopped)
  · rw [watchStep, heartbeatStep, shutdown_eq]
    intro _
    refine List.filter_eq_nil_iff.mpr fun timer htimer => ?_
    rw [decide_eq_true_eq, not_not]
    exact hclean timer htimer

/-- What a timer finds and leaves is not seen by the calls. -/
def observed (w : WatchedKernel) : WatchedKernel := ⟨w.kernel.record 0 none, w.stopped⟩

theorem heartbeatStep_record (s : HeartbeatKernel) (time : ℤ) (token : Option HeartbeatToken)
    (event : HeartbeatEvent) :
    (heartbeatStep oracles (s.record time token) event).record 0 none =
      (heartbeatStep oracles s event).record 0 none := by
  cases event with
  | call event hwFingerprint =>
    rw [heartbeatStep, heartbeatStep]
    cases event with
    | finishInitialization k hardware now =>
      have hkernel : (s.record time token).kernel = s.kernel := rfl
      rw [kernelCall, kernelCall, hkernel]
      obtain ⟨kernel, _ | e | license⟩ := finishInitialization s.kernel k hardware now <;> rfl
    | _ => rfl
  | getCurrentHeartbeat now => rfl
  | exportTelemetry draws now exportedAt => rfl
  | tick timer now finishedAt =>
    obtain ⟨_, _, htick⟩ := heartbeatTick_fst oracles s timer now finishedAt
    obtain ⟨_, _, htick'⟩ := heartbeatTick_fst oracles (s.record time token) timer now finishedAt
    rw [heartbeatStep, heartbeatStep, htick, htick']
    rfl
  | shutdown =>
    rw [heartbeatStep, heartbeatStep, shutdown_eq, shutdown_eq]
    rfl

theorem always_cleanCall_callsOf (start : WatchedKernel) (events : List HeartbeatEvent) :
    Always (watchStep oracles) start (callsOf events) CleanCall ↔
      Always (watchStep oracles) start events CleanCall := by
  refine always_filter observed _ ?_ ?_ ?_ ?_ events
  · intro w event hevent
    cases event with
    | tick timer now finishedAt =>
      obtain ⟨_, _, htick⟩ := heartbeatTick_fst oracles w.kernel timer now finishedAt
      rw [watchStep, heartbeatStep, htick]
      rfl
    | _ => cases hevent
  · intro w w' event hsame
    rw [observed, observed, WatchedKernel.mk.injEq] at hsame ⊢
    obtain ⟨hkernel, hstopped⟩ := hsame
    constructor
    · rw [watchStep, watchStep, ← heartbeatStep_record w.kernel 0 none, hkernel,
        heartbeatStep_record]
    · rw [watchStep, watchStep, hstopped]
  · intro w w' event hsame
    have hobserved : ∀ w, CleanCall (observed w) event ↔ CleanCall w event := by
      intro w
      cases event <;> exact Iff.rfl
    rw [← hobserved w, hsame, hobserved w']
  · intro w event hevent
    cases event with
    | tick timer now finishedAt => exact trivial
    | _ => cases hevent

/-! ## After a shutdown -/

/-- **Run.** Calls that meet their conditions compute nothing after a shutdown. -/
theorem silent_of_cleanCall (hsign : Signs32Bytes oracles) (nodeId heartbeatSecretHex : JSString)
    {events : List HeartbeatEvent}
    (h : Always (watchStep oracles) (newWatchedKernel nodeId heartbeatSecretHex) events CleanCall) :
    Always (watchStep oracles) (newWatchedKernel nodeId heartbeatSecretHex) events
      (Silent oracles) := by
  have hinv : Throughout (watchStep oracles) (newWatchedKernel nodeId heartbeatSecretHex) events
      TimersStopped :=
    throughout_induction TimersStopped (fun _ => rfl)
      (fun _ _ hstopped hclean => timersStopped_step hstopped hclean) h
  intro past event rest hcut hstopped
  have hclean := h past event rest hcut
  have htimers := hinv past (event :: rest) hcut hstopped
  cases event with
  | call event hwFingerprint => rfl
  | getCurrentHeartbeat now =>
    exact (secretUse_getCurrentHeartbeat oracles _ now).mpr (hclean hstopped)
  | exportTelemetry draws now exportedAt =>
    exact (secretUse_exportTelemetry hsign _ draws now exportedAt).mpr (hclean hstopped)
  | tick timer now finishedAt =>
    have hcleared : timer ∉ (run (watchStep oracles)
        (newWatchedKernel nodeId heartbeatSecretHex) past).kernel.timers := by
      rw [htimers]
      exact List.not_mem_nil
    rw [secretUse, heartbeatTick, if_neg hcleared]
    rfl
  | shutdown => rfl

/-- **Step.** An event that computes nothing after a shutdown, and leaves no timer that
would, meets its condition. -/
theorem cleanCall_of_silent (hsign : Signs32Bytes oracles) {w : WatchedKernel}
    (hlicensed : TimersLicensed w) {event : HeartbeatEvent} (hevent : Silent oracles w event)
    (htick : ∀ timer, Silent oracles (watchStep oracles w event) (.tick timer 0 0)) :
    CleanCall w event := by
  cases event with
  | call event hwFingerprint =>
    intro hstopped hcompletes
    rcases kernelCall_cases oracles w.kernel event hwFingerprint with
      ⟨hnot, -⟩ | ⟨-, license, waiting, hcall⟩
    · exact hnot hcompletes
    · rw [watchStep, heartbeatStep, hcall] at htick
      exact secretUse_tick oracles (List.mem_append_right _ (List.mem_singleton_self _)) rfl 0 0
        (htick w.kernel.nextTimer hstopped)
  | getCurrentHeartbeat now =>
    intro hstopped
    exact (secretUse_getCurrentHeartbeat oracles _ now).mp (hevent hstopped)
  | exportTelemetry draws now exportedAt =>
    intro hstopped
    exact (secretUse_exportTelemetry hsign _ draws now exportedAt).mp (hevent hstopped)
  | tick timer now finishedAt => exact trivial
  | shutdown =>
    intro timer htimer
    by_contra hother
    rw [watchStep, heartbeatStep, shutdown_eq] at htick
    have hleft : timer ∈ w.kernel.timers.filter fun timer => w.kernel.heartbeatTimer ≠ some timer :=
      List.mem_filter.mpr ⟨htimer, decide_eq_true hother⟩
    refine secretUse_tick oracles ?_ ?_ 0 0 (htick timer rfl)
    · exact hleft
    · exact hlicensed timer htimer

/-- **After a shutdown**, and not before it, the secret is zero. Whatever timers fire
between the calls of a run, nothing is computed under the zeros exactly when the calls
meet their conditions. -/
theorem silent_after_shutdown_iff (hsign : Signs32Bytes oracles)
    (nodeId heartbeatSecretHex : JSString) (events : List HeartbeatEvent) :
    SecretInvariant (bufferFromHex (removeHexPrefix heartbeatSecretHex))
        (run (watchStep oracles) (newWatchedKernel nodeId heartbeatSecretHex) events) ∧
      ((∀ events', callsOf events' = callsOf events →
          Always (watchStep oracles) (newWatchedKernel nodeId heartbeatSecretHex) events'
            (Silent oracles)) ↔
        Always (watchStep oracles) (newWatchedKernel nodeId heartbeatSecretHex) events
          CleanCall) := by
  refine ⟨secret_run nodeId heartbeatSecretHex events, ?_⟩
  constructor
  · intro h past event rest hcut
    subst hcut
    have hlicensed : TimersLicensed
        (run (watchStep oracles) (newWatchedKernel nodeId heartbeatSecretHex) past) :=
      run_invariant TimersLicensed (fun timer htimer => absurd htimer List.not_mem_nil)
        (fun _ event hlicensed => timersLicensed_step hlicensed event) past
    refine cleanCall_of_silent hsign hlicensed (h _ rfl past event rest rfl) fun timer => ?_
    have hcalls : callsOf (past ++ event :: .tick timer 0 0 :: rest) =
        callsOf (past ++ event :: rest) := by
      simp [callsOf, HeartbeatEvent.isTick, List.filter_cons]
    have hsilent := h _ hcalls (past ++ [event]) (.tick timer 0 0) rest (by simp)
    rwa [run_concat] at hsilent
  · intro h events' hcalls
    rw [← always_cleanCall_callsOf, ← hcalls, always_cleanCall_callsOf] at h
    exact silent_of_cleanCall hsign nodeId heartbeatSecretHex h

/-! ## A shutdown that stops nothing -/

theorem signs32Bytes_sample : Signs32Bytes sampleHeartbeatOracles := by
  intro message secret
  constructor
  · rintro ⟨signature, h⟩
    by_contra hlength
    have herror : sampleHeartbeatOracles.ed25519Sign message secret = .error externalError :=
      if_neg hlength
    rw [herror] at h
    cases h
  · intro hlength
    exact ⟨sampleSignature, if_pos hlength⟩

/-- A kernel whose secret is the sample key. -/
def sampleKernel : WatchedKernel := newWatchedKernel (js "node-1") (js "0x" ++ bytesToHex sampleKey)

/-- Two initializations and a shutdown. -/
def twoInitializations : List HeartbeatEvent :=
  [.call (.initializeLicense sampleBlob 1000) [],
    .call (.finishInitialization 0 (some ⟨true, none⟩) 1001) (js "0xab"),
    .call (.initializeLicense sampleBlob 1002) [],
    .call (.finishInitialization 1 (some ⟨true, none⟩) 1003) (js "0xab"), .shutdown]

theorem silent_after_shutdown_iff_two :
    SecretInvariant (bufferFromHex (removeHexPrefix (js "0x" ++ bytesToHex sampleKey)))
        (run (watchStep sampleHeartbeatOracles) sampleKernel twoInitializations) ∧
      ((∀ events, callsOf events = callsOf twoInitializations →
          Always (watchStep sampleHeartbeatOracles) sampleKernel events
            (Silent sampleHeartbeatOracles)) ↔
        Always (watchStep sampleHeartbeatOracles) sampleKernel twoInitializations CleanCall) :=
  silent_after_shutdown_iff signs32Bytes_sample _ _ twoInitializations

/-- After the shutdown the first timer still runs on the license, under 32 zeros; so do a
request for a heartbeat and an export. -/
theorem zeroized_secret_used :
    (run (watchStep sampleHeartbeatOracles) sampleKernel
        twoInitializations).kernel.heartbeatSecret = List.replicate 32 0 ∧
      ∀ event ∈ [HeartbeatEvent.tick 0 301001 301001, .getCurrentHeartbeat 1005,
          .exportTelemetry (fun _ => .finite 0) 1005 1005],
        ¬ Always (watchStep sampleHeartbeatOracles) sampleKernel (twoInitializations ++ [event])
          (Silent sampleHeartbeatOracles) := by
  obtain ⟨hstopped, hsecret, htimer, hstate⟩ :
      let w := run (watchStep sampleHeartbeatOracles) sampleKernel twoInitializations
      w.stopped = true ∧ w.kernel.heartbeatSecret = List.replicate 32 0 ∧ 0 ∈ w.kernel.timers ∧
        w.kernel.kernel.state.isSome := by decide +kernel
  refine ⟨hsecret, fun event hevent hsilent => ?_⟩
  have hlast := (always_concat.mp hsilent).2 hstopped
  rw [List.mem_cons, List.mem_pair] at hevent
  rcases hevent with rfl | rfl | rfl
  · exact secretUse_tick _ htimer hstate 301001 301001 hlast
  · rw [(secretUse_getCurrentHeartbeat _ _ _).mp hlast] at hstate
    cases hstate
  · rcases (secretUse_exportTelemetry signs32Bytes_sample _ _ _ _).mp hlast with hnone | hlength
    · rw [hnone] at hstate
      cases hstate
    · rw [hsecret] at hlength
      exact hlength List.length_replicate

end BioFire.Licensing
