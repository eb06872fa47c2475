import BioFire.InsertionMap
import BioFire.ModularArithmetic
import BioFire.Runs

/-!
# The simulated enclave (`src/lib/crypto/hsm_enclave.ts`)

`SoftwareSimulationHSMDriver` at its await points. The status is tested when an operation
begins; then the key is imported, derived and used, and other calls run in between. The
functions of WebCrypto are parameters. Each operation keeps the number of zeroizations
before it, and each stored share the operation that stored it.

* `step_operations`: what one event can do to an operation;
* `zeroized_holds_nothing_iff`: which runs leave nothing behind in a zeroized enclave.
-/

namespace BioFire.Enclave

open Runs

inductive HSMStatus where
  | HEALTHY | TAMPERED | LOCKED
  deriving DecidableEq, Repr

/-- `crypto.subtle`, as far as it is used: PBKDF2 keys from key material, and AES-GCM under
an initialization vector. -/
structure WebCrypto (Material Key : Type) where
  importKey : Bytes → Except JSError Material
  deriveKey : Material → Bytes → Except JSError Key
  encrypt : Key → Bytes → Bytes → Except JSError Bytes
  decrypt : Key → Bytes → Bytes → Except JSError Bytes

/-- What is done with the derived key. -/
inductive ShareTask where
  | encrypt (shareData : Bytes)
  | decrypt (ciphertext : Bytes)
  deriving DecidableEq

inductive ShareResult where
  | encrypted (text : JSString)
  | decrypted (data : Bytes)
  deriving DecidableEq

/-- The promise that an operation waits for. -/
inductive Progress (Material Key : Type) where
  | importingKey
  | derivingKey (keyMaterial : Material)
  | ciphering (key : Key)
  | finished (result : Except JSError ShareResult)

structure ShareOperation (Material Key : Type) where
  shareId : JSString
  task : ShareTask
  masterSecret : Bytes
  salt : Bytes
  iv : Bytes
  /-- The zeroizations before the operation began. -/
  begun : ℕ
  progress : Progress Material Key

structure StoredShare where
  combined : Bytes
  /-- The position of the operation that stored the bytes. -/
  storedBy : ℕ

structure EnclaveState (Material Key : Type) where
  status : HSMStatus
  attestationHash : JSString
  encryptedShares : InsertionMap JSString StoredShare
  /-- All operations, in the order in which they began. -/
  operations : List (ShareOperation Material Key)
  /-- The calls of `resetAndAttest` that wait for `zeroize`. -/
  resetting : ℕ
  zeroizations : ℕ

variable {Material Key : Type}

def generateAttestation (random : Bytes) : JSString := js "0x" ++ bytesToHex random

def newDriver (random : Bytes) : EnclaveState Material Key where
  status := .HEALTHY
  attestationHash := generateAttestation random
  encryptedShares := .empty
  operations := []
  resetting := 0
  zeroizations := 0

def hsmLocked : JSError := plainError (js "HSM LOCKED")

/-- `encryptShare` up to its first await, with the salt and the vector drawn. -/
def encryptShare (state : EnclaveState Material Key) (shareId : JSString)
    (shareData masterSecret salt iv : Bytes) : EnclaveState Material Key :=
  { state with
    operations := state.operations ++ [{
      shareId, masterSecret, salt, iv
      task := .encrypt shareData
      begun := state.zeroizations
      progress :=
        if state.status ≠ .HEALTHY then .finished (.error hsmLocked) else .importingKey }] }

/-- `decryptShare` up to its first await. -/
def decryptShare (state : EnclaveState Material Key) (shareId : JSString) (masterSecret : Bytes) :
    EnclaveState Material Key :=
  let combined := ((state.encryptedShares.get shareId).map StoredShare.combined).getD []
  { state with
    operations := state.operations ++ [{
      shareId, masterSecret
      salt := slice combined 0 16
      iv := slice combined 16 28
      task := .decrypt (combined.drop 28)
      begun := state.zeroizations
      progress :=
        if state.status ≠ .HEALTHY then .finished (.error hsmLocked)
        else if (state.encryptedShares.get shareId).isNone then
          .finished (.error (plainError (js "Share " ++ shareId ++ js " not found")))
        else .importingKey }] }

/-- What an operation does when its promise is settled: its next promise, and the bytes
it stores. -/
def advance (crypto : WebCrypto Material Key) (operation : ShareOperation Material Key) :
    Progress Material Key × Option Bytes :=
  match operation.progress with
  | .importingKey =>
    match crypto.importKey operation.masterSecret with
    | .error e => (.finished (.error e), none)
    | .ok keyMaterial => (.derivingKey keyMaterial, none)
  | .derivingKey keyMaterial =>
    match crypto.deriveKey keyMaterial operation.salt with
    | .error e => (.finished (.error e), none)
    | .ok key => (.ciphering key, none)
  | .ciphering key =>
    match operation.task with
    | .encrypt shareData =>
      match crypto.encrypt key operation.iv shareData with
      | .error e => (.finished (.error e), none)
      | .ok ciphertext =>
        let combined := operation.salt ++ operation.iv ++ ciphertext
        (.finished (.ok (.encrypted (js "0x" ++ bytesToHex combined))), some combined)
    | .decrypt ciphertext =>
      match crypto.decrypt key operation.iv ciphertext with
      | .error e => (.finished (.error e), none)
      | .ok data => (.finished (.ok (.decrypted data)), none)
  | .finished result => (.finished result, none)

/-- The operation at `k` goes on. -/
def resume (crypto : WebCrypto Material Key) (state : EnclaveState Material Key) (k : ℕ) :
    EnclaveState Material Key :=
  match state.operations[k]? with
  | none => state
  | some operation =>
    let (progress, stored) := advance crypto operation
    { state with
      operations := state.operations.set k { operation with progress }
      encryptedShares :=
        match stored with
        | none => state.encryptedShares
        | some combined => state.encryptedShares.set operation.shareId ⟨combined, k⟩ }

def zeroize (state : EnclaveState Material Key) : EnclaveState Material Key :=
  { state with
    encryptedShares := .empty
    status := .TAMPERED
    attestationHash := js "0x0000000000000000"
    zeroizations := state.zeroizations + 1 }

/-- `resetAndAttest` up to its await. -/
def resetAndAttest (state : EnclaveState Material Key) : EnclaveState Material Key :=
  { zeroize state with resetting := state.resetting + 1 }

/-- `resetAndAttest` behind its await. -/
def attest (state : EnclaveState Material Key) (random : Bytes) : EnclaveState Material Key :=
  if state.resetting = 0 then state
  else
    { state with
      status := .HEALTHY
      attestationHash := generateAttestation random
      resetting := state.resetting - 1 }

/-- The calls, and the operations and resets going on. -/
inductive EnclaveEvent where
  | encryptShare (shareId : JSString) (shareData masterSecret salt iv : Bytes)
  | decryptShare (shareId : JSString) (masterSecret : Bytes)
  | resume (k : ℕ)
  | zeroize
  | resetAndAttest
  | attest (random : Bytes)

def step (crypto : WebCrypto Material Key) (state : EnclaveState Material Key) :
    EnclaveEvent → EnclaveState Material Key
  | .encryptShare shareId shareData masterSecret salt iv =>
    encryptShare state shareId shareData masterSecret salt iv
  | .decryptShare shareId masterSecret => decryptShare state shareId masterSecret
  | .resume k => resume crypto state k
  | .zeroize => zeroize state
  | .resetAndAttest => resetAndAttest state
  | .attest random => attest state random

/-! ## One operation -/

variable {crypto : WebCrypto Material Key}

def ShareOperation.Unfinished (operation : ShareOperation Material Key) : Prop :=
  ∀ result, operation.progress ≠ .finished result

theorem advance_stored {operation : ShareOperation Material Key} {combined : Bytes}
    (h : (advance crypto operation).2 = some combined) :
    ∃ key shareData ciphertext, operation.progress = .ciphering key ∧
      operation.task = .encrypt shareData ∧
      crypto.encrypt key operation.iv shareData = .ok ciphertext := by
  unfold advance at h
  split at h
  · split at h <;> cases h
  · split at h <;> cases h
  next key hkey =>
    split at h
    next shareData htask =>
      split at h
      · cases h
      next ciphertext hencrypt => exact ⟨key, shareData, ciphertext, hkey, htask, hencrypt⟩
    · split at h <;> cases h
  · cases h

/-- An operation succeeds by the last step of an encryption or of a decryption. -/
theorem advance_ok {operation : ShareOperation Material Key} {result : ShareResult}
    (h : (advance crypto operation).1 = .finished (.ok result)) :
    operation.progress = .finished (.ok result) ∨
      ∃ key, operation.progress = .ciphering key ∧
        ((∃ shareData ciphertext, operation.task = .encrypt shareData ∧
            crypto.encrypt key operation.iv shareData = .ok ciphertext) ∨
          ∃ ciphertext data, operation.task = .decrypt ciphertext ∧
            crypto.decrypt key operation.iv ciphertext = .ok data) := by
  unfold advance at h
  split at h
  · split at h <;> cases h
  · split at h <;> cases h
  next key hkey =>
    refine Or.inr ⟨key, hkey, ?_⟩
    split at h
    next shareData htask =>
      split at h
      · cases h
      next ciphertext hencrypt => exact Or.inl ⟨shareData, ciphertext, htask, hencrypt⟩
    next ciphertext htask =>
      split at h
      · cases h
      next data hdecrypt => exact Or.inr ⟨ciphertext, data, htask, hdecrypt⟩
  next result' hfinished =>
    cases h
    exact Or.inl hfinished

variable (crypto) in
theorem unfinished_of_advance {operation : ShareOperation Material Key}
    (h : ({ operation with progress := (advance crypto operation).1 } :
      ShareOperation Material Key).Unfinished) : operation.Unfinished := by
  intro result hfinished
  apply h result
  simp [advance, hfinished]

/-! ## One event -/

theorem resume_eq {state : EnclaveState Material Key} {k : ℕ}
    {operation : ShareOperation Material Key} (h : state.operations[k]? = some operation) :
    resume crypto state k =
      { state with
        operations := state.operations.set k
          { operation with progress := (advance crypto operation).1 }
        encryptedShares :=
          match (advance crypto operation).2 with
          | none => state.encryptedShares
          | some combined => state.encryptedShares.set operation.shareId ⟨combined, k⟩ } := by
  simp [resume, h]

/-- **What one event does to an operation.** It is kept, is new, or goes on. -/
theorem step_operations {state : EnclaveState Material Key} {event : EnclaveEvent} {k : ℕ}
    {operation : ShareOperation Material Key}
    (h : (step crypto state event).operations[k]? = some operation) :
    state.operations[k]? = some operation ∨
      (k = state.operations.length ∧ operation.begun = state.zeroizations ∧
        (operation.progress = .importingKey ∧ state.status = .HEALTHY ∨
          ∃ e, operation.progress = .finished (.error e))) ∨
      ∃ old, event = .resume k ∧ state.operations[k]? = some old ∧
        operation = { old with progress := (advance crypto old).1 } := by
  cases event with
  | encryptShare =>
    rcases getElem?_concat_eq_some h with hold | ⟨hk, rfl⟩
    · exact Or.inl hold
    · refine Or.inr (Or.inl ⟨hk, rfl, ?_⟩)
      by_cases hstatus : state.status = .HEALTHY <;> simp [hstatus]
  | decryptShare shareId =>
    rcases getElem?_concat_eq_some h with hold | ⟨hk, rfl⟩
    · exact Or.inl hold
    · refine Or.inr (Or.inl ⟨hk, rfl, ?_⟩)
      by_cases hstatus : state.status = .HEALTHY
      · cases hget : state.encryptedShares.get shareId <;> simp [hstatus]
      · simp [hstatus]
  | resume j =>
    cases hj : state.operations[j]? with
    | none => simp_all [step, resume]
    | some old =>
      rw [step, resume_eq hj] at h
      rcases getElem?_set_eq_some h with ⟨rfl, rfl⟩ | ⟨-, hold⟩
      · exact Or.inr (Or.inr ⟨old, rfl, hj, rfl⟩)
      · exact Or.inl hold
  | zeroize => exact Or.inl h
  | resetAndAttest => exact Or.inl h
  | attest random =>
    refine Or.inl ?_
    rw [step, attest] at h
    split at h <;> exact h

/-- The operations keep the number of zeroizations before them. -/
theorem begun_step {state : EnclaveState Material Key} {event : EnclaveEvent} {k n : ℕ}
    (h : state.operations[k]?.map ShareOperation.begun = some n) :
    (step crypto state event).operations[k]?.map ShareOperation.begun = some n := by
  obtain ⟨operation, hget, rfl⟩ := Option.map_eq_some_iff.mp h
  have hlt : k < state.operations.length := (List.getElem?_eq_some_iff.mp hget).1
  cases event with
  | encryptShare => simp [step, encryptShare, List.getElem?_append_left hlt, hget]
  | decryptShare => simp [step, decryptShare, List.getElem?_append_left hlt, hget]
  | resume j =>
    cases hj : state.operations[j]? with
    | none => simp [step, resume, hj, hget]
    | some old =>
      rw [step, resume_eq hj]
      simp only [List.getElem?_set]
      split
      next heq =>
        subst heq
        obtain rfl := Option.some.inj (hget.symm.trans hj)
        simp [hlt]
      · simp [hget]
  | zeroize => exact h
  | resetAndAttest => exact h
  | attest random =>
    rw [step, attest]
    split <;> exact h

/-! ## Zeroized enclaves -/

/-- A zeroized enclave is empty, and every share comes from an operation that began after
the last zeroization. -/
structure HoldsNothingStale (state : EnclaveState Material Key) : Prop where
  tampered : state.status = .TAMPERED → state.encryptedShares.entries = []
  current : ∀ entry ∈ state.encryptedShares.entries,
    state.operations[entry.2.storedBy]?.map ShareOperation.begun = some state.zeroizations

/-- The event ends the operation at `k` with a result. -/
def Succeeds (crypto : WebCrypto Material Key) (state : EnclaveState Material Key)
    (event : EnclaveEvent) (k : ℕ) : Prop :=
  ∃ operation result, (step crypto state event).operations[k]? = some operation ∧
    operation.progress = .finished (.ok result) ∧
    ∀ old, state.operations[k]? = some old → old.progress ≠ .finished (.ok result)

/-- An encryption that began before a zeroization ends, or a decryption ends in a zeroized
enclave, both without an error. -/
def StaleFinish (crypto : WebCrypto Material Key) (state : EnclaveState Material Key) :
    EnclaveEvent → Prop
  | .resume k => ∃ operation key, state.operations[k]? = some operation ∧
      operation.progress = .ciphering key ∧
      ((∃ shareData ciphertext, operation.task = .encrypt shareData ∧
          crypto.encrypt key operation.iv shareData = .ok ciphertext ∧
          operation.begun ≠ state.zeroizations) ∨
        ∃ ciphertext data, operation.task = .decrypt ciphertext ∧
          crypto.decrypt key operation.iv ciphertext = .ok data ∧ state.status = .TAMPERED)
  | _ => False

/-- The invariant: in a zeroized enclave, whatever still goes on began before. -/
structure EnclaveInvariant (state : EnclaveState Material Key) : Prop where
  begun_le : ∀ {k : ℕ} {operation : ShareOperation Material Key},
    state.operations[k]? = some operation → operation.begun ≤ state.zeroizations
  outdated : state.status = .TAMPERED → ∀ {k : ℕ} {operation : ShareOperation Material Key},
    state.operations[k]? = some operation → operation.Unfinished →
      operation.begun < state.zeroizations
  holdsNothingStale : HoldsNothingStale state

theorem enclaveInvariant_new (random : Bytes) :
    EnclaveInvariant (newDriver random : EnclaveState Material Key) := by
  refine ⟨?_, ?_, ⟨?_, ?_⟩⟩ <;> simp [newDriver, InsertionMap.empty]

theorem enclaveInvariant_zeroize {state : EnclaveState Material Key}
    (h : EnclaveInvariant state) : EnclaveInvariant (zeroize state) := by
  refine ⟨?_, ?_, ⟨?_, ?_⟩⟩
  · intro k operation hget
    exact (h.begun_le hget).trans (Nat.le_succ _)
  · intro _ k operation hget _
    exact Nat.lt_succ_of_le (h.begun_le hget)
  · exact fun _ => rfl
  · intro entry hentry
    cases hentry

theorem enclaveInvariant_append {state : EnclaveState Material Key} (h : EnclaveInvariant state)
    {new : ShareOperation Material Key} (hbegun : new.begun = state.zeroizations)
    (hnew : state.status = .TAMPERED → ¬ new.Unfinished) :
    EnclaveInvariant { state with operations := state.operations ++ [new] } := by
  refine ⟨?_, ?_, h.holdsNothingStale.tampered, ?_⟩
  · intro k operation hget
    rcases getElem?_concat_eq_some hget with hold | ⟨-, rfl⟩
    · exact h.begun_le hold
    · exact hbegun.le
  · intro hstatus k operation hget hunfinished
    rcases getElem?_concat_eq_some hget with hold | ⟨-, rfl⟩
    · exact h.outdated hstatus hold hunfinished
    · exact absurd hunfinished (hnew hstatus)
  · intro entry hentry
    obtain ⟨operation, hget, hcurrent⟩ :=
      Option.map_eq_some_iff.mp (h.holdsNothingStale.current entry hentry)
    have hlt := (List.getElem?_eq_some_iff.mp hget).1
    simp [List.getElem?_append_left hlt, hget, hcurrent]

/-- The operation at `k` goes on. What it stores began after the last zeroization. -/
theorem enclaveInvariant_resume {state : EnclaveState Material Key} {k : ℕ}
    (h : EnclaveInvariant state) (hfinish : ¬ StaleFinish crypto state (.resume k)) :
    EnclaveInvariant (resume crypto state k) := by
  cases hk : state.operations[k]? with
  | none =>
    unfold resume
    rwa [hk]
  | some old =>
    have hcases : ∀ {j : ℕ} {operation : ShareOperation Material Key},
        (resume crypto state k).operations[j]? = some operation →
        state.operations[j]? = some operation ∨ state.operations[j]? = some old ∧
          operation = { old with progress := (advance crypto old).1 } := by
      intro j operation hget
      have hstep : (step crypto state (.resume k)).operations[j]? = some operation := hget
      rcases step_operations hstep with
        hold | ⟨hj, -, -⟩ | ⟨old', hevent, hold, hnew⟩
      · exact Or.inl hold
      · have hlength : (resume crypto state k).operations.length = state.operations.length := by
          rw [resume_eq hk]
          simp
        have hlt := (List.getElem?_eq_some_iff.mp hget).1
        omega
      · obtain rfl := EnclaveEvent.resume.inj hevent
        obtain rfl := Option.some.inj (hk.symm.trans hold)
        exact Or.inr ⟨hold, hnew⟩
    have hstatus : (resume crypto state k).status = state.status := by rw [resume_eq hk]
    have hcount : (resume crypto state k).zeroizations = state.zeroizations := by rw [resume_eq hk]
    have hstored : ∀ {combined}, (advance crypto old).2 = some combined →
        old.begun = state.zeroizations ∧ old.Unfinished := by
      intro combined hsome
      obtain ⟨key, shareData, ciphertext, hkey, htask, hencrypt⟩ := advance_stored hsome
      refine ⟨?_, ?_⟩
      · by_contra hne
        exact hfinish ⟨old, key, hk, hkey,
          Or.inl ⟨shareData, ciphertext, htask, hencrypt, hne⟩⟩
      · intro result hfinished
        rw [hkey] at hfinished
        cases hfinished
    refine ⟨?_, ?_, ⟨?_, ?_⟩⟩
    · intro j operation hget
      rw [hcount]
      rcases hcases hget with hold | ⟨hold, rfl⟩
      · exact h.begun_le hold
      · have hle := h.begun_le hold
        exact hle
    · intro htampered j operation hget hunfinished
      rw [hstatus] at htampered
      rw [hcount]
      rcases hcases hget with hold | ⟨hold, rfl⟩
      · exact h.outdated htampered hold hunfinished
      · have hlt := h.outdated htampered hold (unfinished_of_advance crypto hunfinished)
        exact hlt
    · intro htampered
      rw [hstatus] at htampered
      rw [resume_eq hk]
      cases hnone : (advance crypto old).2 with
      | none => exact h.holdsNothingStale.tampered htampered
      | some combined =>
        obtain ⟨hbegun, hunfinished⟩ := hstored hnone
        exact absurd hbegun (h.outdated htampered hk hunfinished).ne
    · intro entry hentry
      rw [hcount]
      change (step crypto state (.resume k)).operations[entry.2.storedBy]?.map _ = _
      refine begun_step ?_
      rw [resume_eq hk] at hentry
      cases hnone : (advance crypto old).2 with
      | none =>
        simp only [hnone] at hentry
        exact h.holdsNothingStale.current entry hentry
      | some combined =>
        simp only [hnone] at hentry
        rcases InsertionMap.mem_entries_set.mp hentry with rfl | ⟨hmem, -⟩
        · simp [hk, (hstored hnone).1]
        · exact h.holdsNothingStale.current entry hmem

theorem enclaveInvariant_step {state : EnclaveState Material Key} {event : EnclaveEvent}
    (h : EnclaveInvariant state) (hfinish : ¬ StaleFinish crypto state event) :
    EnclaveInvariant (step crypto state event) := by
  cases event with
  | encryptShare =>
    refine enclaveInvariant_append h rfl fun hstatus hunfinished => ?_
    exact hunfinished (.error hsmLocked) (by simp [hstatus])
  | decryptShare =>
    refine enclaveInvariant_append h rfl fun hstatus hunfinished => ?_
    exact hunfinished (.error hsmLocked) (by simp [hstatus])
  | resume => exact enclaveInvariant_resume h hfinish
  | zeroize => exact enclaveInvariant_zeroize h
  | resetAndAttest =>
    have hzeroize := enclaveInvariant_zeroize h
    exact ⟨hzeroize.begun_le, hzeroize.outdated, hzeroize.holdsNothingStale.tampered,
      hzeroize.holdsNothingStale.current⟩
  | attest random =>
    rw [step, attest]
    split
    · exact h
    · refine ⟨h.begun_le, ?_, ⟨?_, h.holdsNothingStale.current⟩⟩
      · rintro ⟨⟩
      · rintro ⟨⟩

/-- In a zeroized enclave only a stale operation succeeds. -/
theorem not_succeeds {state : EnclaveState Material Key} {event : EnclaveEvent}
    (h : EnclaveInvariant state) (hstatus : state.status = .TAMPERED)
    (hfinish : ¬ StaleFinish crypto state event) (k : ℕ) : ¬ Succeeds crypto state event k := by
  rintro ⟨operation, result, hget, hok, hbefore⟩
  rcases step_operations hget with hold | ⟨-, -, hnew⟩ | ⟨old, rfl, hold, rfl⟩
  · exact hbefore operation hold hok
  · rcases hnew with ⟨himporting, -⟩ | ⟨e, herror⟩ <;> simp_all
  · rcases advance_ok hok with hfinished | ⟨key, hkey, hencrypt | hdecrypt⟩
    · exact hbefore old hold hfinished
    · obtain ⟨shareData, ciphertext, htask, hok⟩ := hencrypt
      have hunfinished : old.Unfinished := by
        intro result' hfinished
        rw [hkey] at hfinished
        cases hfinished
      exact hfinish ⟨old, key, hold, hkey, Or.inl ⟨shareData, ciphertext, htask, hok,
        (h.outdated hstatus hold hunfinished).ne⟩⟩
    · obtain ⟨ciphertext, data, htask, hok⟩ := hdecrypt
      exact hfinish ⟨old, key, hold, hkey, Or.inr ⟨ciphertext, data, htask, hok, hstatus⟩⟩

theorem staleFinish_harm {state : EnclaveState Material Key} {event : EnclaveEvent}
    (h : StaleFinish crypto state event) :
    ¬ HoldsNothingStale (step crypto state event) ∨
      state.status = .TAMPERED ∧ ∃ k, Succeeds crypto state event k := by
  cases event with
  | resume k =>
    obtain ⟨operation, key, hget, hkey, hencrypt | hdecrypt⟩ := h
    · obtain ⟨shareData, ciphertext, htask, hok, hne⟩ := hencrypt
      refine Or.inl fun hsafe => hne ?_
      have hlt := (List.getElem?_eq_some_iff.mp hget).1
      have hcurrent := hsafe.current
        (operation.shareId, ⟨operation.salt ++ operation.iv ++ ciphertext, k⟩)
      rw [step, resume_eq hget] at hcurrent
      simpa [advance, hkey, htask, hok, InsertionMap.mem_entries_set, hlt] using hcurrent
    · obtain ⟨ciphertext, data, htask, hok, hstatus⟩ := hdecrypt
      refine Or.inr ⟨hstatus, k, { operation with progress := .finished (.ok (.decrypted data)) },
        .decrypted data, ?_, rfl, ?_⟩
      · have hlt := (List.getElem?_eq_some_iff.mp hget).1
        rw [step, resume_eq hget]
        simp [advance, hkey, htask, hok, hlt]
      · intro old hold
        rw [← Option.some.inj (hget.symm.trans hold), hkey]
        simp
  | _ => cases h

/-- **A zeroized enclave holds nothing** throughout a run, and nothing succeeds in it,
exactly when no encryption ends that began before a zeroization and no decryption ends in
a zeroized enclave. -/
theorem zeroized_holds_nothing_iff {random : Bytes} {events : List EnclaveEvent} :
    (Throughout (step crypto) (newDriver random) events HoldsNothingStale ∧
        Always (step crypto) (newDriver random) events fun state event =>
          state.status = .TAMPERED → ∀ k, ¬ Succeeds crypto state event k) ↔
      Always (step crypto) (newDriver random) events fun state event =>
        ¬ StaleFinish crypto state event := by
  constructor
  · rintro ⟨hsafe, hfail⟩ past event rest hcut hstale
    rcases staleFinish_harm hstale with hunsafe | ⟨hstatus, k, hsucceeds⟩
    · have hnext := hsafe (past ++ [event]) rest (by simpa using hcut)
      rw [run_concat] at hnext
      exact hunsafe hnext
    · exact hfail past event rest hcut hstatus k hsucceeds
  · intro h
    have hinv := throughout_induction EnclaveInvariant (enclaveInvariant_new random)
      (fun _ _ => enclaveInvariant_step) h
    refine ⟨fun past rest hcut => (hinv past rest hcut).holdsNothingStale, ?_⟩
    intro past event rest hcut hstatus
    exact not_succeeds (hinv past (event :: rest) hcut) hstatus (h past event rest hcut)

/-- Keys are their material and salt, and the ciphertext is the vector and the data. -/
def testCrypto : WebCrypto Bytes Bytes where
  importKey masterSecret := .ok masterSecret
  deriveKey keyMaterial salt := .ok (keyMaterial ++ salt)
  encrypt _ iv data := .ok (iv ++ data)
  decrypt _ iv ciphertext := .ok (ciphertext.drop iv.length)

/-- The enclave is zeroized while a share is being encrypted. -/
def zeroizedEncryption : List EnclaveEvent :=
  [.encryptShare (js "s1") [1, 2, 3] [4] (List.replicate 16 5) (List.replicate 12 6), .resume 0,
    .resume 0, .zeroize, .resume 0]

/-- The share is stored in the zeroized enclave. -/
theorem share_stored_after_zeroize :
    ¬ (Throughout (step testCrypto) (newDriver []) zeroizedEncryption HoldsNothingStale ∧
      Always (step testCrypto) (newDriver []) zeroizedEncryption fun state event =>
        state.status = .TAMPERED → ∀ k, ¬ Succeeds testCrypto state event k) := by
  rintro ⟨hsafe, -⟩
  have hempty := (hsafe zeroizedEncryption [] (by simp)).tampered (by decide)
  have hstored : (run (step testCrypto) (newDriver []) zeroizedEncryption).encryptedShares.size =
      1 := by
    decide
  rw [InsertionMap.size, hempty] at hstored
  cases hstored

end BioFire.Enclave
