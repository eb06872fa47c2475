import BioFire.LicenseBlob
import BioFire.Runs
import Mathlib.Algebra.Order.Monoid.WithTop

/-!
# The license kernel (`src/lib/licensing/license_kernel.ts`)

A `LicenseVerificationKernel` between its calls. `initializeLicense` checks the
license, waits for the hardware, and then stores a new state: its second half is an
event of its own, with what the hardware check returned. Fingerprints, heartbeats and
telemetry, which no check here reads, are in `LicenseShutdown`.

* `recordTransaction_cases`: when a transaction is recorded, and what changes;
* `quotaInvariant_step`: what every event keeps when it meets its condition;
* `quota_respected`: the quota over whole runs.
-/

namespace BioFire.Licensing

open Runs

/-! ## State -/

structure UsageCounters where
  totalTransactions : JSNumber
  totalVolumeUSD : JSNumber
  dkgCount : JSNumber
  signCount : JSNumber
  refreshCount : JSNumber
  periodStart : JSNumber

structure LicenseState where
  blob : LicenseBlob
  isValid : Bool
  gracePeriodActive : Bool
  gracePeriodEndsAt : Option JSNumber
  usageCounters : UsageCounters

/-- An `initializeLicense` call that waits for the hardware. -/
structure PendingInitialization where
  blob : LicenseBlob
  verification : LicenseVerificationResult

structure KernelState where
  state : Option LicenseState
  /-- The calls that passed the license check, in their order; `none` once finished. -/
  pending : List (Option PendingInitialization)

def newKernel : KernelState := ⟨none, []⟩

/-- What `verifyHardwareFingerprint` returns. -/
structure HardwareCheck where
  matched : Bool
  reason : Option JSString

inductive CeremonyType where
  | DKG | SIGN | REFRESH

/-- The calls on one kernel. `hardware` is what the waiting ended with, `none` when it
threw. -/
inductive KernelEvent where
  | initializeLicense (blob : LicenseBlob) (now : ℤ)
  | finishInitialization (k : ℕ) (hardware : Option HardwareCheck) (now : ℤ)
  | checkFeature (feature : JSString) (now : ℤ)
  | recordTransaction (volumeUSD : JSNumber) (now : ℤ)
  | recordCeremony (type : CeremonyType) (now : ℤ)

/-- The time of a call. -/
def KernelEvent.now : KernelEvent → ℤ
  | initializeLicense _ now => now
  | finishInitialization _ _ now => now
  | checkFeature _ now => now
  | recordTransaction _ now => now
  | recordCeremony _ now => now

variable (oracles : LicenseOracles)

/-! ## Calls -/

/-- `initializeLicense` up to its first `await`. -/
def initializeLicense (kernel : KernelState) (blob : LicenseBlob) (now : ℤ) :
    KernelState × Except JSError Unit :=
  let verification := verifyLicenseBlob oracles blob (.ofInt now)
  if !verification.valid && !verification.inGracePeriod then
    (kernel, .error ⟨.Error,
      js "License invalid: " ++ verification.reason.getD (js "undefined")⟩)
  else ({ kernel with pending := kernel.pending ++ [some ⟨blob, verification⟩] }, .ok ())

/-- The license is not bound to hardware, or the hardware is the right one. -/
def hardwareAccepted (blob : LicenseBlob) (check : HardwareCheck) : Bool :=
  blob.fingerprint = [] || check.matched

/-- The state that `initializeLicense` stores: all counters at zero. -/
def initialState (init : PendingInitialization) (now : ℤ) : LicenseState where
  blob := init.blob
  isValid := init.verification.valid || init.verification.inGracePeriod
  gracePeriodActive := init.verification.inGracePeriod
  gracePeriodEndsAt := init.verification.gracePeriodEndsAt
  usageCounters := ⟨.finite 0, .finite 0, .finite 0, .finite 0, .finite 0, .ofInt now⟩

/-- `initializeLicense` after the hardware answered; `none` when there is no such call. -/
def finishInitialization (kernel : KernelState) (k : ℕ) (hardware : Option HardwareCheck)
    (now : ℤ) : KernelState × Option (Except JSError LicenseState) :=
  match kernel.pending[k]? with
  | some (some init) =>
    let waiting := kernel.pending.set k none
    match hardware with
    | none => ({ kernel with pending := waiting }, some (.error externalError))
    | some check =>
      if !hardwareAccepted init.blob check then
        ({ kernel with pending := waiting }, some (.error ⟨.Error,
          js "Hardware fingerprint mismatch: " ++ check.reason.getD (js "undefined")⟩))
      else (⟨some (initialState init now), waiting⟩, some (.ok (initialState init now)))
  | _ => (kernel, none)

def checkFeature (kernel : KernelState) (feature : JSString) : Bool :=
  match kernel.state with
  | none => false
  | some license => hasFeature license.blob feature

/-- Neither quota stops a transaction of this volume. -/
def quotaFree (license : LicenseState) (volumeUSD : JSNumber) : Bool :=
  !license.blob.transactionQuota.maxTransactions.le license.usageCounters.totalTransactions &&
    !license.blob.transactionQuota.maxVolumeUSD.lt
      (license.usageCounters.totalVolumeUSD.add volumeUSD)

/-- The state after a transaction. -/
def LicenseState.metered (license : LicenseState) (volumeUSD : JSNumber) : LicenseState :=
  { license with usageCounters := { license.usageCounters with
      totalTransactions := license.usageCounters.totalTransactions.add (.finite 1)
      totalVolumeUSD := license.usageCounters.totalVolumeUSD.add volumeUSD } }

def recordTransaction (kernel : KernelState) (volumeUSD : JSNumber) :
    KernelState × Except JSError Unit :=
  match kernel.state with
  | none => (kernel, .error ⟨.Error, js "License not initialized"⟩)
  | some license =>
    if license.blob.transactionQuota.maxTransactions.le license.usageCounters.totalTransactions then
      (kernel, .error ⟨.Error, js "TRANSACTION_QUOTA_EXCEEDED"⟩)
    else if license.blob.transactionQuota.maxVolumeUSD.lt
        (license.usageCounters.totalVolumeUSD.add volumeUSD) then
      (kernel, .error ⟨.Error, js "VOLUME_QUOTA_EXCEEDED"⟩)
    else ({ kernel with state := some (license.metered volumeUSD) }, .ok ())

def UsageCounters.count (counters : UsageCounters) : CeremonyType → UsageCounters
  | .DKG => { counters with dkgCount := counters.dkgCount.add (.finite 1) }
  | .SIGN => { counters with signCount := counters.signCount.add (.finite 1) }
  | .REFRESH => { counters with refreshCount := counters.refreshCount.add (.finite 1) }

def recordCeremony (kernel : KernelState) (type : CeremonyType) : KernelState :=
  { kernel with state := kernel.state.map fun license =>
      { license with usageCounters := license.usageCounters.count type } }

def step (kernel : KernelState) : KernelEvent → KernelState
  | .initializeLicense blob now => (initializeLicense oracles kernel blob now).1
  | .finishInitialization k hardware now => (finishInitialization kernel k hardware now).1
  | .checkFeature _ _ => kernel
  | .recordTransaction volumeUSD _ => (recordTransaction kernel volumeUSD).1
  | .recordCeremony type _ => recordCeremony kernel type

/-! ## What one call can do -/

theorem checkWindow_valid_of_inGracePeriod {terms : LicenseTerms} {now : JSNumber}
    (h : (checkWindow terms now).inGracePeriod = true) : (checkWindow terms now).valid = true := by
  rw [checkWindow] at h ⊢
  split
  · simp_all
  · split
    · split
      · rfl
      · simp_all
    · rfl

theorem valid_of_inGracePeriod {blob : LicenseBlob} {now : JSNumber}
    (h : (verifyLicenseBlob oracles blob now).inGracePeriod = true) :
    (verifyLicenseBlob oracles blob now).valid = true := by
  rw [verifyLicenseBlob] at h ⊢
  split
  · simp_all
  · simp_all
  next hcheck =>
    rw [hcheck] at h
    exact checkWindow_valid_of_inGracePeriod h

theorem initializeLicense_cases (kernel : KernelState) (blob : LicenseBlob) (now : ℤ) :
    (initializeLicense oracles kernel blob now).1 = kernel ∨
      (verifyLicenseBlob oracles blob (.ofInt now)).valid = true ∧
        (initializeLicense oracles kernel blob now).1 = { kernel with
          pending := kernel.pending ++ [some ⟨blob, verifyLicenseBlob oracles blob (.ofInt now)⟩] } := by
  rw [initializeLicense]
  split
  · exact Or.inl rfl
  next hpassed =>
    refine Or.inr ⟨?_, rfl⟩
    rw [Bool.and_eq_true, not_and_or, Bool.not_eq_true', Bool.not_eq_true', Bool.not_eq_false,
      Bool.not_eq_false] at hpassed
    exact hpassed.elim id (valid_of_inGracePeriod oracles)

variable {oracles}

/-- A call that finishes stores the state of the license it waited with. -/
theorem finishInitialization_cases (kernel : KernelState) (k : ℕ) (hardware : Option HardwareCheck)
    (now : ℤ) :
    (finishInitialization kernel k hardware now).1 = kernel ∨
      (finishInitialization kernel k hardware now).1 =
        { kernel with pending := kernel.pending.set k none } ∨
      ∃ init check, kernel.pending[k]? = some (some init) ∧ hardware = some check ∧
        hardwareAccepted init.blob check = true ∧
        (finishInitialization kernel k hardware now).1 =
          ⟨some (initialState init now), kernel.pending.set k none⟩ := by
  rw [finishInitialization]
  split
  next init hinit =>
    cases hardware with
    | none => exact Or.inr (Or.inl rfl)
    | some check =>
      dsimp only
      split
      · exact Or.inr (Or.inl rfl)
      next haccepted =>
        rw [Bool.not_eq_true, Bool.not_eq_false'] at haccepted
        exact Or.inr (Or.inr ⟨init, check, hinit, rfl, haccepted, rfl⟩)
  · exact Or.inl rfl

/-- **When a transaction is recorded**, and what changes. -/
theorem recordTransaction_cases (kernel : KernelState) (volumeUSD : JSNumber) :
    (∃ e, recordTransaction kernel volumeUSD = (kernel, .error e)) ∧
        (∀ license ∈ kernel.state, quotaFree license volumeUSD = false) ∨
      ∃ license, kernel.state = some license ∧ quotaFree license volumeUSD = true ∧
        recordTransaction kernel volumeUSD =
          ({ kernel with state := some (license.metered volumeUSD) }, .ok ()) := by
  cases hstate : kernel.state with
  | none =>
    refine Or.inl ⟨⟨_, by rw [recordTransaction, hstate]⟩, fun license hlicense => ?_⟩
    cases hlicense
  | some license =>
    simp only [recordTransaction, hstate, Option.mem_some_iff, forall_eq', quotaFree]
    split
    next hcount => exact Or.inl ⟨⟨_, rfl⟩, by simp [hcount]⟩
    next hcount =>
      split
      next hvolume => exact Or.inl ⟨⟨_, rfl⟩, by simp [hvolume]⟩
      next hvolume => exact Or.inr ⟨license, rfl, by simp [hcount, hvolume], rfl⟩

/-! ## The quota -/

/-- The volume of a transaction, as far as it is positive. -/
def positivePart : JSNumber → WithTop ℚ
  | .finite v => (max v 0 : ℚ)
  | .infinity => ⊤
  | _ => 0

/-- The accepted volumes respect the quota. -/
def WithinQuota (quota : TransactionQuota) (accepted : List JSNumber) : Prop :=
  (∃ limit : ℚ, quota.maxTransactions = .finite limit ∧ (accepted.length : ℚ) ≤ limit) ∧
    ∃ limit : ℚ, quota.maxVolumeUSD = .finite limit ∧ (accepted.map positivePart).sum ≤ limit

/-- A kernel and the volumes of the transactions that it recorded. -/
structure MeteredKernel where
  kernel : KernelState
  accepted : List JSNumber

/-- The volume that an event records. -/
def recorded (kernel : KernelState) : KernelEvent → List JSNumber
  | .recordTransaction volumeUSD _ =>
    match (recordTransaction kernel volumeUSD).2 with
    | .ok _ => [volumeUSD]
    | .error _ => []
  | _ => []

variable (oracles) in
def meteredStep (s : MeteredKernel) (event : KernelEvent) : MeteredKernel where
  kernel := step oracles s.kernel event
  accepted := s.accepted ++ recorded s.kernel event

theorem meteredStep_silent {s : MeteredKernel} {event : KernelEvent}
    (h : recorded s.kernel event = []) :
    meteredStep oracles s event = ⟨step oracles s.kernel event, s.accepted⟩ := by
  rw [meteredStep, h, List.append_nil]

/-- The event initializes the kernel with `blob` if at all. -/
def UsesBlob (blob : LicenseBlob) : KernelEvent → Prop
  | .initializeLicense blob' _ => blob' = blob
  | _ => True

/-- The volume is a number, not negative, and the counter does not lose any of it by
rounding. -/
def CountsInFull (total volumeUSD : JSNumber) : Prop :=
  ∃ t v r : ℚ, total = .finite t ∧ volumeUSD = .finite v ∧ 0 ≤ v ∧
    total.add volumeUSD = .finite r ∧ t + v ≤ r

/-- No initialization completes on counters in use, and every transaction that the
quotas let through is counted in full. -/
def MeteredInFull (s : MeteredKernel) : KernelEvent → Prop
  | .finishInitialization k hardware _ => ∀ init check,
    s.kernel.pending[k]? = some (some init) → hardware = some check →
      hardwareAccepted init.blob check = true →
        ∀ license ∈ s.kernel.state, license.usageCounters.totalTransactions = .finite 0
  | .recordTransaction volumeUSD _ => ∀ license ∈ s.kernel.state,
    quotaFree license volumeUSD = true →
      CountsInFull license.usageCounters.totalVolumeUSD volumeUSD
  | _ => True

/-- The counters of a kernel that runs on `blob` cover what it recorded. -/
structure QuotaInvariant (blob : LicenseBlob) (count : ℕ) (volume : ℚ) (s : MeteredKernel) :
    Prop where
  pending : ∀ init, some init ∈ s.kernel.pending → init.blob = blob
  unused : s.kernel.state = none → s.accepted = []
  blob_eq : ∀ license ∈ s.kernel.state, license.blob = blob
  counted : ∀ license ∈ s.kernel.state,
    license.usageCounters.totalTransactions = .finite s.accepted.length
  covered : ∀ license ∈ s.kernel.state, ∃ t : ℚ,
    license.usageCounters.totalVolumeUSD = .finite t ∧ (s.accepted.map positivePart).sum ≤ t
  count_le : s.accepted.length ≤ count
  volume_le : (s.accepted.map positivePart).sum ≤ volume

section Quota

variable {blob : LicenseBlob} {count : ℕ} {volume : ℚ}

theorem quotaInvariant_start (hvolume : 0 ≤ volume) :
    QuotaInvariant blob count volume ⟨newKernel, []⟩ where
  pending init hinit := absurd hinit List.not_mem_nil
  unused _ := rfl
  blob_eq license hlicense := by cases hlicense
  counted license hlicense := by cases hlicense
  covered license hlicense := by cases hlicense
  count_le := Nat.zero_le count
  volume_le := WithTop.coe_nonneg.mpr hvolume

/-- The waiting calls may change as long as they are about `blob`. -/
theorem QuotaInvariant.withPending {s : MeteredKernel} (h : QuotaInvariant blob count volume s)
    {pending : List (Option PendingInitialization)}
    (hpending : ∀ init, some init ∈ pending → init.blob = blob) :
    QuotaInvariant blob count volume ⟨{ s.kernel with pending := pending }, s.accepted⟩ :=
  { h with pending := hpending }

theorem QuotaInvariant.pending_set {s : MeteredKernel} (h : QuotaInvariant blob count volume s)
    (k : ℕ) : ∀ init, some init ∈ s.kernel.pending.set k none → init.blob = blob := by
  intro init hinit
  rcases List.mem_or_eq_of_mem_set hinit with hmem | heq
  · exact h.pending init hmem
  · cases heq

theorem QuotaInvariant.initialized {s : MeteredKernel} (h : QuotaInvariant blob count volume s)
    {init : PendingInitialization} (hinit : init.blob = blob) (now : ℤ)
    {pending : List (Option PendingInitialization)}
    (hpending : ∀ init, some init ∈ pending → init.blob = blob)
    (hfresh : ∀ license ∈ s.kernel.state, license.usageCounters.totalTransactions = .finite 0) :
    QuotaInvariant blob count volume ⟨⟨some (initialState init now), pending⟩, s.accepted⟩ := by
  have hnil : s.accepted = [] := by
    cases hstate : s.kernel.state with
    | none => exact h.unused hstate
    | some license =>
      have hcounted := h.counted license hstate
      rw [hfresh license hstate] at hcounted
      have hlength : (0 : ℚ) = s.accepted.length := JSNumber.finite.inj hcounted
      exact List.length_eq_zero_iff.mp (by exact_mod_cast hlength.symm)
  refine ⟨hpending, fun hnone => ?_, ?_, ?_, ?_, h.count_le, h.volume_le⟩
  · cases hnone
  · rintro license ⟨rfl⟩
    exact hinit
  · rintro license ⟨rfl⟩
    rw [hnil]
    rfl
  · rintro license ⟨rfl⟩
    rw [hnil]
    exact ⟨0, rfl, le_rfl⟩

theorem QuotaInvariant.ceremony {s : MeteredKernel} (h : QuotaInvariant blob count volume s)
    (type : CeremonyType) :
    QuotaInvariant blob count volume ⟨recordCeremony s.kernel type, s.accepted⟩ := by
  have hcount : ∀ counters : UsageCounters,
      (counters.count type).totalTransactions = counters.totalTransactions ∧
        (counters.count type).totalVolumeUSD = counters.totalVolumeUSD := by
    intro counters
    cases type <;> exact ⟨rfl, rfl⟩
  refine ⟨h.pending, fun hnone => h.unused (Option.map_eq_none_iff.mp hnone), ?_, ?_, ?_,
    h.count_le, h.volume_le⟩
  · intro license hlicense
    obtain ⟨license, hstate, rfl⟩ := Option.map_eq_some_iff.mp hlicense
    exact h.blob_eq license hstate
  · intro license hlicense
    obtain ⟨license, hstate, rfl⟩ := Option.map_eq_some_iff.mp hlicense
    exact (hcount _).1.trans (h.counted license hstate)
  · intro license hlicense
    obtain ⟨license, hstate, rfl⟩ := Option.map_eq_some_iff.mp hlicense
    dsimp only
    rw [(hcount _).2]
    exact h.covered license hstate

/-- A transaction that the quotas let through and that is counted in full. -/
theorem QuotaInvariant.transaction {s : MeteredKernel} (h : QuotaInvariant blob count volume s)
    (hcount : blob.transactionQuota.maxTransactions = .finite count) (hsmall : count < 2 ^ 53)
    (hvolume : blob.transactionQuota.maxVolumeUSD = .finite volume) {license : LicenseState}
    (hstate : s.kernel.state = some license) {volumeUSD : JSNumber}
    (hfree : quotaFree license volumeUSD = true)
    (hfull : CountsInFull license.usageCounters.totalVolumeUSD volumeUSD) :
    QuotaInvariant blob count volume
      ⟨{ s.kernel with state := some (license.metered volumeUSD) }, s.accepted ++ [volumeUSD]⟩ := by
  have hblob := h.blob_eq license hstate
  have hcounted := h.counted license hstate
  obtain ⟨t, ht, hcovered⟩ := h.covered license hstate
  obtain ⟨t', v, r, ht', rfl, hv, hr, hle⟩ := hfull
  obtain rfl := JSNumber.finite.inj (ht.symm.trans ht')
  rw [quotaFree, hblob, hcount, hvolume, hcounted, hr, Bool.and_eq_true, Bool.not_eq_true',
    Bool.not_eq_true'] at hfree
  obtain ⟨hbelow, hwithin⟩ := hfree
  have hlength : s.accepted.length + 1 ≤ count := by
    have hlt : (s.accepted.length : ℚ) < count := by
      rw [JSNumber.le_finite, decide_eq_false_iff_not] at hbelow
      exact not_le.mp hbelow
    exact_mod_cast hlt
  have hr_le : r ≤ volume := by
    rw [JSNumber.lt_finite, decide_eq_false_iff_not] at hwithin
    exact not_lt.mp hwithin
  have hsum : ((s.accepted ++ [JSNumber.finite v]).map positivePart).sum ≤ (r : WithTop ℚ) := by
    rw [List.map_append, List.sum_append, List.map_singleton, List.sum_singleton, positivePart,
      max_eq_left hv]
    calc (s.accepted.map positivePart).sum + (v : WithTop ℚ)
        ≤ (t : WithTop ℚ) + v := add_le_add_left hcovered _
      _ = ((t + v : ℚ) : WithTop ℚ) := (WithTop.coe_add t v).symm
      _ ≤ r := by exact_mod_cast hle
  refine ⟨h.pending, fun hnone => ?_, ?_, ?_, ?_, ?_, ?_⟩
  · cases hnone
  · rintro license' ⟨rfl⟩
    exact hblob
  · rintro license' ⟨rfl⟩
    rw [LicenseState.metered]
    dsimp only
    rw [hcounted, JSNumber.add, List.length_append, List.length_singleton]
    have hexact := JSNumber.ofRat_natCast (hlength.trans_lt hsmall)
    push_cast at hexact ⊢
    exact hexact
  · rintro license' ⟨rfl⟩
    exact ⟨r, hr, hsum⟩
  · rw [List.length_append, List.length_singleton]
    exact hlength
  · exact hsum.trans (by exact_mod_cast hr_le)

variable (oracles) in
/-- **Step.** What every event keeps when it meets its condition. -/
theorem quotaInvariant_step {s : MeteredKernel} (h : QuotaInvariant blob count volume s)
    (hcount : blob.transactionQuota.maxTransactions = .finite count) (hsmall : count < 2 ^ 53)
    (hvolume : blob.transactionQuota.maxVolumeUSD = .finite volume) {event : KernelEvent}
    (hblob : UsesBlob blob event) (hevent : MeteredInFull s event) :
    QuotaInvariant blob count volume (meteredStep oracles s event) := by
  cases event with
  | initializeLicense blob' now =>
    obtain rfl : blob' = blob := hblob
    rw [meteredStep_silent rfl, step]
    rcases initializeLicense_cases oracles s.kernel blob' now with hsame | ⟨-, hnew⟩
    · rw [hsame]
      exact h
    · rw [hnew]
      refine h.withPending fun init hinit => ?_
      rcases List.mem_append.mp hinit with hmem | hlast
      · exact h.pending init hmem
      · obtain rfl := Option.some.inj (List.mem_singleton.mp hlast)
        rfl
  | finishInitialization k hardware now =>
    rw [meteredStep_silent rfl, step]
    rcases finishInitialization_cases s.kernel k hardware now with
      hsame | hset | ⟨init, check, hinit, hcheck, haccepted, hnew⟩
    · rw [hsame]
      exact h
    · rw [hset]
      exact h.withPending (h.pending_set k)
    · rw [hnew]
      exact h.initialized (h.pending init (List.mem_of_getElem? hinit)) now (h.pending_set k)
        (hevent init check hinit hcheck haccepted)
  | checkFeature feature now =>
    rw [meteredStep_silent rfl, step]
    exact h
  | recordTransaction volumeUSD now =>
    rw [meteredStep, step, recorded]
    rcases recordTransaction_cases s.kernel volumeUSD with
      ⟨⟨e, herror⟩, -⟩ | ⟨license, hstate, hfree, hrecord⟩
    · rw [herror, List.append_nil]
      exact h
    · rw [hrecord]
      exact h.transaction hcount hsmall hvolume hstate hfree (hevent license hstate hfree)
  | recordCeremony type now =>
    rw [meteredStep_silent rfl, step]
    exact h.ceremony type

end Quota

/-- **The quota over whole runs.** With a whole number of transactions, no
initialization on counters in use, and every transaction counted in full, what a kernel
records stays within the quota. -/
theorem quota_respected {blob : LicenseBlob}
    (hvalid : ∃ now, (verifyLicenseBlob oracles blob now).valid = true)
    (hwhole : blob.transactionQuota.maxTransactions.isInteger = true)
    {events : List KernelEvent} (hblob : ∀ event ∈ events, UsesBlob blob event)
    (h : Always (meteredStep oracles) ⟨newKernel, []⟩ events MeteredInFull) :
    WithinQuota blob.transactionQuota
      (run (meteredStep oracles) ⟨newKernel, []⟩ events).accepted := by
  obtain ⟨now, hnow⟩ := hvalid
  obtain ⟨⟨bytes, hbytes⟩, -⟩ := checks_of_valid hnow
  have hnumbers := finite_of_serialized hbytes
  obtain ⟨limit, hlimit, hlimit₀, hlimit₁⟩ :=
    hnumbers blob.transactionQuota.maxTransactions (by simp [LicenseTerms.numbers])
  obtain ⟨volume, hvolume, hvolume₀, -⟩ :=
    hnumbers blob.transactionQuota.maxVolumeUSD (by simp [LicenseTerms.numbers])
  rw [hlimit, JSNumber.isInteger, decide_eq_true_eq] at hwhole
  have hcast : limit = limit.num.toNat := by
    have hnum : ((limit.num.toNat : ℕ) : ℚ) = limit.num := by
      exact_mod_cast Int.toNat_of_nonneg (Rat.num_nonneg.mpr hlimit₀)
    rw [hnum, Rat.coe_int_num_of_den_eq_one hwhole]
  have hsmall : limit.num.toNat < 2 ^ 53 := by
    have hle : (limit.num.toNat : ℚ) ≤ (0xFFFFFFFF : ℕ) := by
      rw [← hcast]
      exact_mod_cast hlimit₁
    have hle' : limit.num.toNat ≤ 0xFFFFFFFF := by exact_mod_cast hle
    exact hle'.trans_lt (by decide)
  have hcount : blob.transactionQuota.maxTransactions = .finite (limit.num.toNat : ℕ) := by
    rw [hlimit, ← hcast]
  have hevents : Always (meteredStep oracles) ⟨newKernel, []⟩ events
      fun s event => UsesBlob blob event ∧ MeteredInFull s event := by
    intro past event rest hcut
    exact ⟨hblob event (by simp [hcut]), h past event rest hcut⟩
  have hinv : QuotaInvariant blob limit.num.toNat volume
      (run (meteredStep oracles) ⟨newKernel, []⟩ events) :=
    run_induction (fun _ s => QuotaInvariant blob limit.num.toNat volume s)
      (quotaInvariant_start hvolume₀)
      (fun _ _ hs hevent =>
        quotaInvariant_step oracles hs hcount hsmall hvolume hevent.1 hevent.2) hevents
  exact ⟨⟨_, hcount, by exact_mod_cast hinv.count_le⟩, volume, hvolume, hinv.volume_le⟩

theorem countsInFull_natCast {t v : ℕ} (h : t + v < 2 ^ 53) :
    CountsInFull (.finite t) (.finite v) := by
  have hexact := JSNumber.ofRat_natCast h
  rw [Nat.cast_add] at hexact
  exact ⟨t, v, t + v, rfl, rfl, Nat.cast_nonneg v, hexact, le_rfl⟩

def sampleBlob : LicenseBlob :=
  { sampleTerms with signature := js "0x" ++ bytesToHex sampleSignature }

theorem sampleBlob_valid : (verifyLicenseBlob sampleOracles sampleBlob (.finite 1000)).valid = true := by
  decide +kernel

/-- An initialization and two transactions. -/
def twoTransactions : List KernelEvent :=
  [.initializeLicense sampleBlob 1000, .finishInitialization 0 (some ⟨true, none⟩) 1001,
    .recordTransaction (.finite (20000 : ℕ)) 1002, .recordTransaction (.finite (30000 : ℕ)) 1003]

theorem quota_respected_two :
    WithinQuota sampleBlob.transactionQuota
      (run (meteredStep sampleOracles) ⟨newKernel, []⟩ twoTransactions).accepted := by
  have hstates : ((twoTransactions.take 3).scanl (meteredStep sampleOracles)
      ⟨newKernel, []⟩).tail.map (fun s => s.kernel.state.map fun license =>
        license.usageCounters.totalVolumeUSD) =
      [none, some (.finite (0 : ℕ)), some (.finite (20000 : ℕ))] := by decide +kernel
  simp only [twoTransactions, List.take_succ_cons, List.take_zero, List.scanl_cons, List.scanl_nil,
    List.tail_cons, List.map_cons, List.map_nil, List.cons.injEq, and_true] at hstates
  obtain ⟨hnone, hzero, hfirst⟩ := hstates
  have htotal : ∀ {license : LicenseState} {state : Option LicenseState} {t : ℕ},
      state.map (fun license => license.usageCounters.totalVolumeUSD) = some (.finite t) →
        license ∈ state → license.usageCounters.totalVolumeUSD = .finite t := by
    intro license state t hs hlicense
    rw [Option.mem_def.mp hlicense] at hs
    exact Option.some.inj hs
  refine quota_respected ⟨.finite 1000, sampleBlob_valid⟩ (by decide) ?_ ?_
  · simp [twoTransactions, UsesBlob]
  · refine always_cons.mpr ⟨trivial, always_cons.mpr ⟨?_, always_cons.mpr ⟨?_,
      always_cons.mpr ⟨?_, always_nil⟩⟩⟩⟩
    · intro init check _ _ _ license hlicense
      rw [Option.mem_def.mp hlicense] at hnone
      cases hnone
    · intro license hlicense _
      rw [htotal hzero hlicense]
      exact countsInFull_natCast (by decide)
    · intro license hlicense _
      rw [htotal hfirst hlicense]
      exact countsInFull_natCast (by decide)

/-- The whole volume, a new initialization, and the whole volume again. -/
def doubleVolume : List KernelEvent :=
  [.initializeLicense sampleBlob 1000, .finishInitialization 0 (some ⟨true, none⟩) 1001,
    .recordTransaction (.finite 50000) 1002,
    .initializeLicense sampleBlob 1003, .finishInitialization 1 (some ⟨true, none⟩) 1004,
    .recordTransaction (.finite 50000) 1005]

/-- Initializing again resets the counters. -/
theorem reinitialization_resets_quota :
    (∀ event ∈ doubleVolume, UsesBlob sampleBlob event) ∧
      (verifyLicenseBlob sampleOracles sampleBlob (.finite 1000)).valid = true ∧
      (run (meteredStep sampleOracles) ⟨newKernel, []⟩ doubleVolume).accepted =
        [.finite 50000, .finite 50000] ∧
      ¬ WithinQuota sampleBlob.transactionQuota
        (run (meteredStep sampleOracles) ⟨newKernel, []⟩ doubleVolume).accepted := by
  have haccepted : (run (meteredStep sampleOracles) ⟨newKernel, []⟩ doubleVolume).accepted =
      [.finite 50000, .finite 50000] := by decide +kernel
  refine ⟨by simp [doubleVolume, UsesBlob], sampleBlob_valid, haccepted, ?_⟩
  rintro ⟨-, limit, hlimit, hsum⟩
  obtain rfl : (50000 : ℚ) = limit := JSNumber.finite.inj hlimit
  rw [haccepted] at hsum
  revert hsum
  with_unfolding_all decide

end BioFire.Licensing
