import BioFire.HsmEnclave

/-!
# The reported status of the enclave (`src/lib/crypto/hsm_enclave.ts`)

`HSMEnclaveSimulator` over the simulated driver. Its report is built from the kind of the
driver and from constants: the promise of `getEnclaveStatus` is not awaited.

* `healthy_iff`, `mem_keys_iff`: what a history leaves behind in the driver;
* `truthful_iff`: after which histories the report is true.
-/

namespace BioFire.Enclave

open Runs

variable {Material Key : Type}

/-- `HSMStatus['status']` -/
inductive ReportedStatus where
  | SECURE | ATTESTED | TAMPER_ALERT | LOCKED | DEGRADED
  deriving DecidableEq, Repr

/-- `HSMStatus` -/
structure EnclaveReport where
  enclaveId : JSString
  status : ReportedStatus
  fipsLevel : JSString
  hardwareAttestationHash : JSString
  fuzzyExtractorDerived : Bool
  activeKeysInEnclave : ℕ
  uptimeSeconds : ℕ
  lastAttestationAt : ℤ
  provider : JSString

/-- What a report reads of its driver. -/
structure HSMDriver where
  providerName : JSString
  isSimulation : Bool

def SoftwareSimulationHSMDriver : HSMDriver where
  providerName := js "Software AES-GCM Simulation [DEV ONLY]"
  isSimulation := true

namespace HSMEnclaveSimulator

/-- `getStatus` at the time `now`, with the bytes it draws. Both branches of its condition
on the promise are the same. -/
def getStatus (activeDriver : HSMDriver) (random : Bytes) (now : ℤ) : EnclaveReport where
  enclaveId := js "enclave-sgx-v6-001"
  status := .ATTESTED
  fipsLevel :=
    if activeDriver.isSimulation then
      js "NOT_CERTIFIED (Software Simulation — Development Only)"
    else js "FIPS_140_2_LEVEL_2 (AWS KMS)"
  hardwareAttestationHash := js "0x" ++ bytesToHex random
  fuzzyExtractorDerived := !activeDriver.isSimulation
  activeKeysInEnclave := 3
  uptimeSeconds := 86400
  lastAttestationAt := now
  provider := activeDriver.providerName

/-- `triggerTamperAlert`; `zeroize` has no await. -/
def triggerTamperAlert (state : EnclaveState Material Key) (random : Bytes) (now : ℤ) :
    EnclaveState Material Key × EnclaveReport :=
  (zeroize state,
    { getStatus SoftwareSimulationHSMDriver random now with
      status := .TAMPER_ALERT
      hardwareAttestationHash := js "0x0000000000000000"
      fuzzyExtractorDerived := false
      activeKeysInEnclave := 0 })

/-- `resetAndAttest`, which does not await the driver. -/
def resetAndAttest (state : EnclaveState Material Key) (random : Bytes) (now : ℤ) :
    EnclaveState Material Key × EnclaveReport :=
  (Enclave.resetAndAttest state, getStatus SoftwareSimulationHSMDriver random now)

end HSMEnclaveSimulator

/-- The report says that the enclave can be trusted only when the driver is healthy, and
how many shares the driver holds. -/
def Truthful (state : EnclaveState Material Key) (report : EnclaveReport) : Prop :=
  (report.status = .ATTESTED ∨ report.status = .SECURE → state.status = .HEALTHY) ∧
    report.activeKeysInEnclave = state.encryptedShares.size

/-! ## What a history leaves behind -/

/-- `triggerTamperAlert` and `resetAndAttest` zeroize the driver. -/
def Zeroizes : EnclaveEvent → Prop
  | .zeroize => True
  | .resetAndAttest => True
  | _ => False

/-- A reset is completed. -/
def Attests (state : EnclaveState Material Key) : EnclaveEvent → Prop
  | .attest _ => state.resetting ≠ 0
  | _ => False

/-- The event completes an encryption of the share. -/
def Stores (crypto : WebCrypto Material Key) (shareId : JSString)
    (state : EnclaveState Material Key) : EnclaveEvent → Prop
  | .resume k => ∃ operation combined, state.operations[k]? = some operation ∧
      operation.shareId = shareId ∧ (advance crypto operation).2 = some combined
  | _ => False

/-- After a zeroization no reset was completed. -/
def LeftZeroized (crypto : WebCrypto Material Key) (start : EnclaveState Material Key)
    (events : List EnclaveEvent) : Prop :=
  Since (step crypto) start events (fun state event => ¬ Attests state event)
    fun _ event => Zeroizes event

/-- The share was encrypted, and no zeroization came after. -/
def Held (crypto : WebCrypto Material Key) (start : EnclaveState Material Key)
    (events : List EnclaveEvent) (shareId : JSString) : Prop :=
  Since (step crypto) start events (fun _ event => ¬ Zeroizes event) (Stores crypto shareId)

variable {crypto : WebCrypto Material Key}

theorem healthy_step (state : EnclaveState Material Key) (event : EnclaveEvent) :
    (step crypto state event).status = .HEALTHY ↔
      ¬ Zeroizes event ∧ (Attests state event ∨ state.status = .HEALTHY) := by
  cases event with
  | encryptShare => simp [step, encryptShare, Zeroizes, Attests]
  | decryptShare => simp [step, decryptShare, Zeroizes, Attests]
  | resume k =>
    cases hk : state.operations[k]? with
    | none => simp [step, resume, hk, Zeroizes, Attests]
    | some operation => simp [step, resume_eq hk, Zeroizes, Attests]
  | zeroize => simp [step, zeroize, Zeroizes]
  | resetAndAttest => simp [step, Enclave.resetAndAttest, zeroize, Zeroizes]
  | attest random =>
    by_cases hreset : state.resetting = 0 <;> simp [step, attest, hreset, Zeroizes, Attests]

theorem mem_keys_step (state : EnclaveState Material Key) (event : EnclaveEvent)
    (shareId : JSString) :
    shareId ∈ (step crypto state event).encryptedShares.keys ↔
      Stores crypto shareId state event ∨
        ¬ Zeroizes event ∧ shareId ∈ state.encryptedShares.keys := by
  cases event with
  | encryptShare => simp [step, encryptShare, Zeroizes, Stores]
  | decryptShare => simp [step, decryptShare, Zeroizes, Stores]
  | resume k =>
    cases hk : state.operations[k]? with
    | none => simp [step, resume, hk, Zeroizes, Stores]
    | some operation =>
      rw [step, resume_eq hk]
      cases hstored : (advance crypto operation).2 with
      | none => simp [Zeroizes, Stores, hk, hstored]
      | some combined =>
        simp [Zeroizes, Stores, hk, hstored, InsertionMap.mem_keys_set, eq_comm]
  | zeroize => simp [step, zeroize, Zeroizes, Stores, InsertionMap.keys, InsertionMap.empty]
  | resetAndAttest =>
    simp [step, Enclave.resetAndAttest, zeroize, Zeroizes, Stores, InsertionMap.keys,
      InsertionMap.empty]
  | attest random =>
    by_cases hreset : state.resetting = 0 <;> simp [step, attest, hreset, Zeroizes, Stores]

/-- **The status after a history**: healthy, unless the enclave was left zeroized. -/
theorem healthy_iff {start : EnclaveState Material Key} (hstart : start.status = .HEALTHY)
    (events : List EnclaveEvent) :
    (run (step crypto) start events).status = .HEALTHY ↔ ¬ LeftZeroized crypto start events := by
  induction events using List.reverseRecOn with
  | nil => simp [hstart, LeftZeroized, not_since_nil]
  | append_singleton events event ih =>
    have hsince : LeftZeroized crypto start (events ++ [event]) ↔ Zeroizes event ∨
        ¬ Attests (run (step crypto) start events) event ∧ LeftZeroized crypto start events :=
      since_concat
    rw [run_concat, healthy_step, ih, hsince]
    tauto

/-- **The shares after a history** are those encrypted since the last zeroization. -/
theorem mem_keys_iff {start : EnclaveState Material Key}
    (hstart : start.encryptedShares.entries = []) (events : List EnclaveEvent)
    (shareId : JSString) :
    shareId ∈ (run (step crypto) start events).encryptedShares.keys ↔
      Held crypto start events shareId := by
  induction events using List.reverseRecOn with
  | nil => simp [InsertionMap.keys, hstart, Held, not_since_nil]
  | append_singleton events event ih =>
    have hsince : Held crypto start (events ++ [event]) shareId ↔
        Stores crypto shareId (run (step crypto) start events) event ∨
          ¬ Zeroizes event ∧ Held crypto start events shareId :=
      since_concat
    rw [run_concat, mem_keys_step, ih, hsince]

theorem size_eq_ncard {start : EnclaveState Material Key}
    (hstart : start.encryptedShares.entries = []) (events : List EnclaveEvent) :
    (run (step crypto) start events).encryptedShares.size =
      {shareId | Held crypto start events shareId}.ncard := by
  have hkeys : {shareId | Held crypto start events shareId} =
      ((run (step crypto) start events).encryptedShares.keys.toFinset : Set JSString) := by
    ext shareId
    simp [mem_keys_iff hstart]
  have hnodup : (run (step crypto) start events).encryptedShares.keys.Nodup :=
    InsertionMap.nodup _
  rw [hkeys, Set.ncard_coe_finset, List.toFinset_card_of_nodup hnodup, InsertionMap.keys,
    List.length_map, InsertionMap.size]

/-! ## The report -/

theorem triggerTamperAlert_step (state : EnclaveState Material Key) (random : Bytes) (now : ℤ) :
    (HSMEnclaveSimulator.triggerTamperAlert state random now).1 = step crypto state .zeroize ∧
      (HSMEnclaveSimulator.resetAndAttest state random now).1 =
        step crypto state .resetAndAttest :=
  ⟨rfl, rfl⟩

/-- **The reported status** is true after exactly those histories that leave the enclave
attested, with three shares encrypted since the last zeroization. -/
theorem truthful_iff (crypto : WebCrypto Material Key) (random random' : Bytes) (now : ℤ)
    (events : List EnclaveEvent) :
    Truthful (run (step crypto) (newDriver random) events)
        (HSMEnclaveSimulator.getStatus SoftwareSimulationHSMDriver random' now) ↔
      ¬ LeftZeroized crypto (newDriver random) events ∧
        {shareId | Held crypto (newDriver random) events shareId}.ncard = 3 := by
  have hstatus : (HSMEnclaveSimulator.getStatus SoftwareSimulationHSMDriver random' now).status =
      .ATTESTED := rfl
  rw [Truthful, healthy_iff rfl, size_eq_ncard rfl, hstatus]
  simp only [true_or, true_imp_iff]
  exact and_congr_right fun _ => eq_comm

/-- After a tamper alert the enclave is still reported as attested. -/
theorem attested_after_tamper :
    ¬ Truthful (run (step testCrypto) (newDriver []) [.zeroize])
      (HSMEnclaveSimulator.getStatus SoftwareSimulationHSMDriver [1] 0) := by
  rintro ⟨htrusted, -⟩
  have hhealthy := htrusted (Or.inl rfl)
  cases hhealthy

end BioFire.Enclave
