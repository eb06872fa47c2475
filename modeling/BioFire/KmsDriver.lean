import BioFire.HsmEnclave
import BioFire.LicenseShutdown

/-!
# The AWS KMS driver (`src/lib/crypto/hsm_enclave.ts`)

`AWSKMSHSMDriver` at its await points: the import of the SDK, which the constructor does not
wait for, and the answers of KMS. A failed import in the constructor ends the process and is
left out. Clients are numbered in the order in which they are made.

* `kms_state_iff`: what an interleaving of calls and answers leaves in the driver;
* `kms_round_trip`: what `decryptCiphertext` gives back.
-/

namespace BioFire.Kms

open Runs
open Enclave (HSMStatus)

/-! ## State -/

/-- A command that a client sends. -/
inductive KmsCommand where
  | EncryptCommand (plaintext : Bytes)
  | DecryptCommand (ciphertextBlob : Bytes)
  | DescribeKeyCommand
  deriving DecidableEq

/-- The public methods with an await, and their arguments. -/
inductive KmsCall where
  | encryptShare (shareData : Bytes)
  | decryptShare
  | decryptCiphertext (ciphertextHex : JSString)
  | getEnclaveStatus
  deriving DecidableEq

structure KmsReport where
  status : HSMStatus
  attestationHash : JSString
  keySharesEncrypted : ℕ
  provider : JSString
  deriving DecidableEq

inductive KmsResult where
  | encrypted (text : JSString)
  | decrypted (data : Bytes)
  | report (report : KmsReport)
  deriving DecidableEq

/-- The promise that an operation waits for: the import in `getEnclaveStatus`, or the answer to
a command. -/
inductive KmsProgress where
  | importing
  | sent (client : ℕ) (command : KmsCommand)
  | finished (result : Except JSError KmsResult)

structure KmsOperation where
  call : KmsCall
  progress : KmsProgress

structure KmsState where
  status : HSMStatus
  keyCount : ℕ
  kmsClient : Option ℕ
  /-- `EncryptCommand` and `DecryptCommand` are set. -/
  hasCommands : Bool
  /-- The constructor waits for its import. -/
  constructing : Bool
  /-- The calls of `resetAndAttest` that wait for theirs. -/
  resetting : ℕ
  /-- For every client made, whether it was destroyed. -/
  destroyed : List Bool
  /-- All operations, in the order in which they began. -/
  operations : List KmsOperation

def AWSKMSHSMDriver : KmsState where
  status := .HEALTHY
  keyCount := 0
  kmsClient := none
  hasCommands := false
  constructing := true
  resetting := 0
  destroyed := []
  operations := []

/-! ## Calls -/

def lockedError (verb : JSString) : JSError :=
  plainError (js "AWS KMS HSM is LOCKED or TAMPERED. Cannot " ++ verb ++ js ".")

def failedError (operation message permission : JSString) : JSError :=
  plainError (js "AWS KMS " ++ operation ++ js " failed: " ++ message ++
    js ". Ensure the KMS key exists and the IAM principal has " ++ permission ++ js " permission.")

def encryptionFailed (message : JSString) : JSError :=
  failedError (js "encryption") message (js "kms:Encrypt")

def decryptionFailed (message : JSString) : JSError :=
  failedError (js "decryption") message (js "kms:Decrypt")

def notInitialized : JSString := js "AWS KMS client not initialized."

def checkCredentials : JSString := js " Check AWS credentials and KMS key ID."

/-- `encryptShare` up to its await. -/
def encryptShare (state : KmsState) (shareData : Bytes) : KmsProgress :=
  if state.status ≠ .HEALTHY then .finished (.error (lockedError (js "encrypt")))
  else
    match state.kmsClient with
    | none => .finished (.error (plainError (notInitialized ++ checkCredentials)))
    | some client =>
      if state.hasCommands then .sent client (.EncryptCommand shareData)
      else .finished (.error (encryptionFailed (js "this.EncryptCommand is not a constructor")))

def decryptShare (state : KmsState) : KmsProgress :=
  if state.status ≠ .HEALTHY then .finished (.error (lockedError (js "decrypt")))
  else if state.kmsClient.isNone then
    .finished (.error (plainError (notInitialized ++ checkCredentials)))
  else
    .finished (.error (plainError (js "AWS KMS decrypt requires the ciphertext blob to be " ++
      js "retrieved from secure storage first. Store the encrypted share in your database, " ++
      js "then call decryptShare with the ciphertext.")))

/-- `decryptCiphertext` up to its await. -/
def decryptCiphertext (state : KmsState) (ciphertextHex : JSString) : KmsProgress :=
  if state.status ≠ .HEALTHY then .finished (.error (lockedError (js "decrypt")))
  else
    match state.kmsClient with
    | none => .finished (.error (plainError notInitialized))
    | some client =>
      if state.hasCommands then
        .sent client (.DecryptCommand (Licensing.bufferFromHex (removeHexPrefix ciphertextHex)))
      else .finished (.error (decryptionFailed (js "this.DecryptCommand is not a constructor")))

/-- The end of `getEnclaveStatus`. -/
def enclaveReport (state : KmsState) (kmsHealth : JSString) (random : Bytes) : KmsProgress :=
  .finished (.ok (.report {
    status := state.status
    attestationHash :=
      if kmsHealth = js "CONNECTED" then js "0x" ++ bytesToHex random else js "0xDISCONNECTED"
    keySharesEncrypted := state.keyCount
    provider := js "AWS KMS (" ++ kmsHealth ++ js ")" }))

def getEnclaveStatus (state : KmsState) : KmsProgress :=
  if state.kmsClient.isNone then enclaveReport state (js "UNKNOWN") [] else .importing

/-- A call up to its first await. -/
def start (state : KmsState) : KmsCall → KmsProgress
  | .encryptShare shareData => encryptShare state shareData
  | .decryptShare => decryptShare state
  | .decryptCiphertext ciphertextHex => decryptCiphertext state ciphertextHex
  | .getEnclaveStatus => getEnclaveStatus state

def begin (state : KmsState) (call : KmsCall) : KmsState :=
  { state with operations := state.operations ++ [⟨call, start state call⟩] }

/-! ## Answers -/

/-- What an operation does when its promise is settled, and what it adds to `keyCount`. The bytes
of an answer are those of its `CiphertextBlob` or `Plaintext`, none where it is `undefined`. -/
def advance (state : KmsState) (response : Except JSError Bytes) (random : Bytes) :
    KmsProgress → KmsProgress × ℕ
  | .importing =>
    match response, state.kmsClient with
    | .ok _, some client => (.sent client .DescribeKeyCommand, 0)
    | _, _ => (enclaveReport state (js "DISCONNECTED") random, 0)
  | .sent _ (.EncryptCommand _) =>
    match response with
    | .error e => (.finished (.error (encryptionFailed e.message)), 0)
    | .ok [] =>
      (.finished (.error (encryptionFailed (js "AWS KMS returned empty ciphertext."))), 0)
    | .ok ciphertextBlob => (.finished (.ok (.encrypted (js "0x" ++ bytesToHex ciphertextBlob))), 1)
  | .sent _ (.DecryptCommand _) =>
    match response with
    | .error e => (.finished (.error (decryptionFailed e.message)), 0)
    | .ok [] => (.finished (.error (decryptionFailed (js "AWS KMS returned empty plaintext."))), 0)
    | .ok plaintext => (.finished (.ok (.decrypted plaintext)), 0)
  | .sent _ .DescribeKeyCommand =>
    match response with
    | .error _ => (enclaveReport state (js "DISCONNECTED") random, 0)
    | .ok _ => (enclaveReport state (js "CONNECTED") random, 0)
  | .finished result => (.finished result, 0)

/-- The operation at `k` goes on. -/
def resume (state : KmsState) (k : ℕ) (response : Except JSError Bytes) (random : Bytes) :
    KmsState :=
  match state.operations[k]? with
  | none => state
  | some operation =>
    let (progress, keys) := advance state response random operation.progress
    { state with
      operations := state.operations.set k { operation with progress }
      keyCount := state.keyCount + keys }

/-- `this.kmsClient = new KMSClient(...)` -/
def newClient (state : KmsState) : KmsState :=
  { state with
    kmsClient := some state.destroyed.length
    destroyed := state.destroyed ++ [false] }

/-- The import in the constructor is done. -/
def constructed (state : KmsState) : KmsState :=
  if state.constructing then
    { newClient state with hasCommands := true, constructing := false }
  else state

def zeroize (state : KmsState) : KmsState :=
  { state with
    status := .TAMPERED
    keyCount := 0
    kmsClient := none
    destroyed := state.kmsClient.elim state.destroyed fun client =>
      state.destroyed.set client true }

/-- `resetAndAttest` up to its await. -/
def resetAndAttest (state : KmsState) : KmsState :=
  { state with status := .HEALTHY, resetting := state.resetting + 1 }

/-- `resetAndAttest` behind its await; the import may fail. -/
def attest (state : KmsState) (imported : Bool) : KmsState :=
  if state.resetting = 0 then state
  else
    { (if imported then newClient state else state) with resetting := state.resetting - 1 }

inductive KmsEvent where
  | constructed
  | begin (call : KmsCall)
  | resume (k : ℕ) (response : Except JSError Bytes) (random : Bytes)
  | zeroize
  | resetAndAttest
  | attest (imported : Bool)

def step (state : KmsState) : KmsEvent → KmsState
  | .constructed => constructed state
  | .begin call => begin state call
  | .resume k response random => resume state k response random
  | .zeroize => zeroize state
  | .resetAndAttest => resetAndAttest state
  | .attest imported => attest state imported

/-! ## One event -/

/-- The command of a call. -/
def KmsCall.command : KmsCall → Option KmsCommand
  | .encryptShare shareData => some (.EncryptCommand shareData)
  | .decryptShare => none
  | .decryptCiphertext ciphertextHex =>
    some (.DecryptCommand (Licensing.bufferFromHex (removeHexPrefix ciphertextHex)))
  | .getEnclaveStatus => some .DescribeKeyCommand

/-- **The gate.** A call sends its command from a healthy driver with a client, throws, or reports
the status. -/
theorem start_cases (state : KmsState) (call : KmsCall) :
    (∃ e, start state call = .finished (.error e)) ∨
      (∃ client command, call.command = some command ∧ state.status = .HEALTHY ∧
        state.kmsClient = some client ∧ start state call = .sent client command) ∨
      call = .getEnclaveStatus ∧ (start state call = .importing ∨
        ∃ report, start state call = .finished (.ok (.report report))) := by
  cases call with
  | encryptShare shareData =>
    rw [start, encryptShare]
    split
    · exact Or.inl ⟨_, rfl⟩
    next hstatus =>
      split
      · exact Or.inl ⟨_, rfl⟩
      next client hclient =>
        split
        · exact Or.inr (Or.inl ⟨client, _, rfl, not_not.mp hstatus, hclient, rfl⟩)
        · exact Or.inl ⟨_, rfl⟩
  | decryptShare =>
    rw [start, decryptShare]
    split
    · exact Or.inl ⟨_, rfl⟩
    · split
      · exact Or.inl ⟨_, rfl⟩
      · exact Or.inl ⟨_, rfl⟩
  | decryptCiphertext ciphertextHex =>
    rw [start, decryptCiphertext]
    split
    · exact Or.inl ⟨_, rfl⟩
    next hstatus =>
      split
      · exact Or.inl ⟨_, rfl⟩
      next client hclient =>
        split
        · exact Or.inr (Or.inl ⟨client, _, rfl, not_not.mp hstatus, hclient, rfl⟩)
        · exact Or.inl ⟨_, rfl⟩
  | getEnclaveStatus =>
    rw [start, getEnclaveStatus]
    split
    · exact Or.inr (Or.inr ⟨rfl, Or.inr ⟨_, rfl⟩⟩)
    · exact Or.inr (Or.inr ⟨rfl, Or.inl rfl⟩)

/-- The event makes a client. -/
def Connects (state : KmsState) : KmsEvent → Prop
  | .constructed => state.constructing = true
  | .attest imported => state.resetting ≠ 0 ∧ imported = true
  | _ => False

def KmsEvent.isZeroize : KmsEvent → Bool
  | .zeroize => true
  | _ => false

theorem KmsEvent.eq_zeroize {event : KmsEvent} (h : event.isZeroize = true) : event = .zeroize := by
  cases event <;> first | rfl | cases h

/-- `resetAndAttest` makes the driver healthy before its import. -/
def KmsEvent.isReset : KmsEvent → Bool
  | .resetAndAttest => true
  | _ => false

/-- **What one event does to the clients.** It leaves them, makes one in place of the current one,
or destroys the current one. -/
theorem step_clients (state : KmsState) (event : KmsEvent) :
    event.isZeroize = true ∧ (step state event).kmsClient = none ∧
        (step state event).destroyed = (state.kmsClient.elim state.destroyed fun client =>
          state.destroyed.set client true) ∨
      Connects state event ∧ (step state event).kmsClient = some state.destroyed.length ∧
        (step state event).destroyed = state.destroyed ++ [false] ∨
      event.isZeroize = false ∧ ¬ Connects state event ∧
        (step state event).kmsClient = state.kmsClient ∧
        (step state event).destroyed = state.destroyed := by
  cases event with
  | constructed =>
    cases hconstructing : state.constructing <;>
      simp [step, constructed, newClient, hconstructing, Connects, KmsEvent.isZeroize]
  | begin call => exact Or.inr (Or.inr ⟨rfl, id, rfl, rfl⟩)
  | resume k response random =>
    rw [step, resume]
    split
    · exact Or.inr (Or.inr ⟨rfl, id, rfl, rfl⟩)
    · exact Or.inr (Or.inr ⟨rfl, id, rfl, rfl⟩)
  | zeroize => exact Or.inl ⟨rfl, rfl, rfl⟩
  | resetAndAttest => exact Or.inr (Or.inr ⟨rfl, id, rfl, rfl⟩)
  | attest imported =>
    by_cases hreset : state.resetting = 0
    · simp [step, attest, hreset, Connects, KmsEvent.isZeroize]
    · cases imported <;> simp [step, attest, newClient, hreset, Connects, KmsEvent.isZeroize]

theorem status_step (state : KmsState) (event : KmsEvent) :
    (step state event).status = .HEALTHY ↔
      event.isReset = true ∨ event.isZeroize = false ∧ state.status = .HEALTHY := by
  cases event with
  | constructed =>
    rw [step, constructed]
    split <;> simp [newClient, KmsEvent.isReset, KmsEvent.isZeroize]
  | begin call => simp [step, begin, KmsEvent.isReset, KmsEvent.isZeroize]
  | resume k response random =>
    rw [step, resume]
    split <;> simp [KmsEvent.isReset, KmsEvent.isZeroize]
  | zeroize => simp [step, zeroize, KmsEvent.isReset, KmsEvent.isZeroize]
  | resetAndAttest => simp [step, resetAndAttest, KmsEvent.isReset]
  | attest imported =>
    rw [step, attest]
    split
    · simp [KmsEvent.isReset, KmsEvent.isZeroize]
    · cases imported <;> simp [newClient, KmsEvent.isReset, KmsEvent.isZeroize]

/-- A client that was not destroyed and is not the driver's any more. -/
def Leaked (state : KmsState) : Prop :=
  ∃ client, state.destroyed[client]? = some false ∧ state.kmsClient ≠ some client

/-- The event makes a client in place of one. -/
def Overwrites (state : KmsState) (event : KmsEvent) : Prop :=
  state.kmsClient.isSome ∧ Connects state event

/-- The client of the driver is not destroyed. -/
def Live (state : KmsState) : Prop :=
  ∀ client, state.kmsClient = some client → state.destroyed[client]? = some false

theorem Live.step {state : KmsState} (h : Live state) (event : KmsEvent) :
    Live (step state event) := by
  intro client hclient
  rcases step_clients state event with ⟨-, hnone, -⟩ | ⟨-, hnew, hdestroyed⟩ |
    ⟨-, -, hsame, hdestroyed⟩
  · rw [hnone] at hclient
    cases hclient
  · rw [hnew] at hclient
    rw [hdestroyed, ← Option.some.inj hclient, List.getElem?_concat_length]
  · rw [hdestroyed]
    exact h client (hsame.symm.trans hclient)

theorem leaked_step {state : KmsState} (h : Live state) (event : KmsEvent) :
    Leaked (step state event) ↔ Leaked state ∨ Overwrites state event := by
  rcases step_clients state event with ⟨hzeroize, hclient, hdestroyed⟩ |
    ⟨hconnects, hclient, hdestroyed⟩ | ⟨-, hconnects, hclient, hdestroyed⟩
  · obtain rfl := KmsEvent.eq_zeroize hzeroize
    have hkeeps : ¬ Overwrites state .zeroize := fun hoverwrites => hoverwrites.2
    rw [or_iff_left hkeeps, Leaked, Leaked, hclient, hdestroyed]
    cases hcurrent : state.kmsClient with
    | none => rfl
    | some current =>
      apply exists_congr
      intro client
      by_cases heq : current = client
      · have hlt := (List.getElem?_eq_some_iff.mp (h current hcurrent)).1
        simp [← heq, List.getElem?_set_self hlt]
      · simp [List.getElem?_set_ne heq, heq]
  · rw [Leaked, hclient, hdestroyed]
    constructor
    · rintro ⟨client, hlive, hne⟩
      rcases getElem?_concat_eq_some hlive with hold | ⟨rfl, -⟩
      · by_cases hcurrent : state.kmsClient = some client
        · exact Or.inr ⟨by rw [hcurrent]; rfl, hconnects⟩
        · exact Or.inl ⟨client, hold, hcurrent⟩
      · exact absurd rfl hne
    · have hold : ∀ client, state.destroyed[client]? = some false →
          (state.destroyed ++ [false])[client]? = some false ∧
            some state.destroyed.length ≠ some client := by
        intro client hlive
        have hlt := (List.getElem?_eq_some_iff.mp hlive).1
        rw [List.getElem?_append_left hlt, Ne, Option.some.injEq]
        exact ⟨hlive, by omega⟩
      rintro (⟨client, hlive, -⟩ | ⟨hsome, -⟩)
      · exact ⟨client, hold client hlive⟩
      · obtain ⟨client, hcurrent⟩ := Option.isSome_iff_exists.mp hsome
        exact ⟨client, hold client (h client hcurrent)⟩
  · have hkeeps : ¬ Overwrites state event := fun hoverwrites => hconnects hoverwrites.2
    rw [or_iff_left hkeeps, Leaked, Leaked, hclient, hdestroyed]

def KmsProgress.isEncrypted : KmsProgress → Bool
  | .finished (.ok (.encrypted _)) => true
  | _ => false

/-- The encryptions that are finished. -/
def encryptions (state : KmsState) : ℕ :=
  state.operations.countP fun operation => operation.progress.isEncrypted

theorem start_isEncrypted (state : KmsState) (call : KmsCall) :
    (start state call).isEncrypted = false := by
  rcases start_cases state call with ⟨e, hstart⟩ | ⟨client, command, -, -, -, hstart⟩ |
    ⟨-, hstart | ⟨report, hstart⟩⟩
  all_goals rw [hstart]; rfl

theorem advance_isEncrypted (state : KmsState) (response : Except JSError Bytes) (random : Bytes)
    (progress : KmsProgress) :
    let next := advance state response random progress
    (if next.1.isEncrypted then 1 else 0) = (if progress.isEncrypted then 1 else 0) + next.2 := by
  cases progress with
  | importing =>
    cases response with
    | error e => rfl
    | ok bytes => cases hclient : state.kmsClient <;> simp [advance, hclient] <;> rfl
  | sent client command =>
    cases command with
    | EncryptCommand plaintext => rcases response with _ | _ | _ <;> rfl
    | DecryptCommand ciphertextBlob => rcases response with _ | _ | _ <;> rfl
    | DescribeKeyCommand => cases response <;> rfl
  | finished result => rfl

theorem keyCount_step (state : KmsState) {event : KmsEvent} (h : event.isZeroize = false) :
    (step state event).keyCount + encryptions state =
      state.keyCount + encryptions (step state event) := by
  cases event with
  | constructed =>
    rw [step, constructed]
    split <;> rfl
  | begin call =>
    simp [step, begin, encryptions, List.countP_append, start_isEncrypted]
  | resume k response random =>
    rw [step, resume]
    cases hk : state.operations[k]? with
    | none => rfl
    | some operation =>
      obtain ⟨hlt, hget⟩ := List.getElem?_eq_some_iff.mp hk
      have hadvance := advance_isEncrypted state response random operation.progress
      have hset := countP_set_add (fun operation : KmsOperation => operation.progress.isEncrypted)
        hk { operation with progress := (advance state response random operation.progress).1 }
      simp only [encryptions] at hadvance hset ⊢
      omega
  | zeroize => cases h
  | resetAndAttest => rfl
  | attest imported =>
    rw [step, attest]
    split
    · rfl
    · cases imported <;> rfl

/-! ## Runs -/

/-- The driver was zeroized, and not reset since. -/
def LeftZeroized (events : List KmsEvent) : Prop :=
  Since step AWSKMSHSMDriver events (fun _ event => event.isReset = false)
    fun _ event => event.isZeroize = true

/-- A client was made, and the driver not zeroized since. -/
def Connected (events : List KmsEvent) : Prop :=
  Since step AWSKMSHSMDriver events (fun _ event => event.isZeroize = false) Connects

theorem healthy_iff (events : List KmsEvent) :
    (run step AWSKMSHSMDriver events).status = .HEALTHY ↔ ¬ LeftZeroized events := by
  induction events using List.reverseRecOn with
  | nil => exact iff_of_true rfl not_since_nil
  | append_singleton events event ih =>
    have hsince : LeftZeroized (events ++ [event]) ↔ event.isZeroize = true ∨
        event.isReset = false ∧ LeftZeroized events := since_concat
    rw [run_concat, status_step, ih, hsince]
    cases event <;> simp [KmsEvent.isReset, KmsEvent.isZeroize]

theorem client_iff (events : List KmsEvent) :
    (run step AWSKMSHSMDriver events).kmsClient.isSome ↔ Connected events := by
  induction events using List.reverseRecOn with
  | nil => exact iff_of_false Bool.false_ne_true not_since_nil
  | append_singleton events event ih =>
    have hsince : Connected (events ++ [event]) ↔
        Connects (run step AWSKMSHSMDriver events) event ∨
          event.isZeroize = false ∧ Connected events := since_concat
    rw [run_concat, hsince]
    rcases step_clients (run step AWSKMSHSMDriver events) event with
      ⟨hzeroize, hclient, -⟩ | ⟨hconnects, hclient, -⟩ | ⟨hzeroize, hconnects, hclient, -⟩
    · obtain rfl := KmsEvent.eq_zeroize hzeroize
      simp [hclient, Connects, KmsEvent.isZeroize]
    · simp [hclient, hconnects]
    · simp [hclient, hzeroize, hconnects, ih]

theorem run_live (events : List KmsEvent) : Live (run step AWSKMSHSMDriver events) := by
  refine run_invariant Live ?_ (fun _ event h => h.step event) events
  intro client hclient
  cases hclient

theorem leaked_iff (events : List KmsEvent) :
    Leaked (run step AWSKMSHSMDriver events) ↔ Occurs step AWSKMSHSMDriver events Overwrites := by
  induction events using List.reverseRecOn with
  | nil =>
    refine iff_of_false ?_ not_occurs_nil
    rintro ⟨client, hlive, -⟩
    cases hlive
  | append_singleton events event ih =>
    rw [run_concat, leaked_step (run_live events), occurs_concat, ih]

/-- The key count is that of the encryptions finished since the last zeroization, whenever they
began. -/
theorem keyCount_run (events : List KmsEvent) : ∃ past rest, events = past ++ rest ∧
    (past = [] ∨ ∃ before, past = before ++ [.zeroize]) ∧
    (∀ event ∈ rest, event.isZeroize = false) ∧
    (run step AWSKMSHSMDriver events).keyCount + encryptions (run step AWSKMSHSMDriver past) =
      encryptions (run step AWSKMSHSMDriver events) := by
  induction events using List.reverseRecOn with
  | nil => exact ⟨[], [], rfl, Or.inl rfl, by simp, rfl⟩
  | append_singleton events event ih =>
    cases hzeroize : event.isZeroize with
    | true =>
      obtain rfl := KmsEvent.eq_zeroize hzeroize
      refine ⟨events ++ [.zeroize], [], by simp, Or.inr ⟨events, rfl⟩, by simp, ?_⟩
      rw [run_concat]
      exact Nat.zero_add _
    | false =>
      obtain ⟨past, rest, rfl, hpast, hrest, hcount⟩ := ih
      refine ⟨past, rest ++ [event], by simp, hpast, ?_, ?_⟩
      · intro e he
        rcases List.mem_append.mp he with he | he
        · exact hrest e he
        · rw [List.mem_singleton.mp he, hzeroize]
      · have hstep := keyCount_step (run step AWSKMSHSMDriver (past ++ rest)) hzeroize
        rw [run_concat]
        omega

/-- **The driver after an interleaving.** It is healthy unless it was left zeroized; it has a
client exactly when one was made since the last zeroization, so one that is made late stays with a
zeroized driver; a client leaks exactly when one was made in place of another; and the count of
keys goes on with encryptions that began before the zeroization. -/
theorem kms_state_iff (events : List KmsEvent) :
    let final := run step AWSKMSHSMDriver events
    (final.status = .HEALTHY ↔ ¬ LeftZeroized events) ∧
      (final.kmsClient.isSome ↔ Connected events) ∧
      (Leaked final ↔ Occurs step AWSKMSHSMDriver events Overwrites) ∧
      ∃ past rest, events = past ++ rest ∧ (past = [] ∨ ∃ before, past = before ++ [.zeroize]) ∧
        (∀ event ∈ rest, event.isZeroize = false) ∧
        final.keyCount + encryptions (run step AWSKMSHSMDriver past) = encryptions final :=
  ⟨healthy_iff events, client_iff events, leaked_iff events, keyCount_run events⟩

/-! ## Round trip -/

/-- An answer of a service that decrypts to what it encrypted. -/
def Faithful (plaintextOf : Bytes → Option Bytes) (bytes : Bytes) : KmsCommand → Prop
  | .EncryptCommand plaintext => plaintextOf bytes = some plaintext
  | .DecryptCommand ciphertextBlob => plaintextOf ciphertextBlob = some bytes
  | .DescribeKeyCommand => True

/-- The event is no answer, or one of a service that decrypts to what it encrypted. -/
def Answers (plaintextOf : Bytes → Option Bytes) (state : KmsState) : KmsEvent → Prop
  | .resume k (.ok bytes) _ => ∀ call client command,
    state.operations[k]? = some ⟨call, .sent client command⟩ → Faithful plaintextOf bytes command
  | _ => True

/-- A result is what the service made of the argument of its call. -/
def Sound (plaintextOf : Bytes → Option Bytes) (operation : KmsOperation) : Prop :=
  match operation.progress with
  | .importing => operation.call = .getEnclaveStatus
  | .sent _ command => operation.call.command = some command
  | .finished (.error _) => True
  | .finished (.ok (.encrypted text)) => ∃ shareData ciphertextBlob,
    operation.call = .encryptShare shareData ∧ text = js "0x" ++ bytesToHex ciphertextBlob ∧
      plaintextOf ciphertextBlob = some shareData
  | .finished (.ok (.decrypted data)) => ∃ ciphertextHex,
    operation.call = .decryptCiphertext ciphertextHex ∧ data ≠ [] ∧
      plaintextOf (Licensing.bufferFromHex (removeHexPrefix ciphertextHex)) = some data
  | .finished (.ok (.report _)) => operation.call = .getEnclaveStatus

variable {plaintextOf : Bytes → Option Bytes}

theorem sound_start (state : KmsState) (call : KmsCall) :
    Sound plaintextOf ⟨call, start state call⟩ := by
  rcases start_cases state call with ⟨e, hstart⟩ | ⟨client, command, hcommand, -, -, hstart⟩ |
    ⟨hcall, hstart | ⟨report, hstart⟩⟩
  · rw [hstart]
    trivial
  · rw [hstart]
    exact hcommand
  · rw [hstart]
    exact hcall
  · rw [hstart]
    exact hcall

theorem sound_advance {operation : KmsOperation} (h : Sound plaintextOf operation)
    (state : KmsState) (response : Except JSError Bytes) (random : Bytes)
    (hanswer : ∀ bytes client command, response = .ok bytes →
      operation.progress = .sent client command → Faithful plaintextOf bytes command) :
    Sound plaintextOf
      { operation with progress := (advance state response random operation.progress).1 } := by
  obtain ⟨call, progress⟩ := operation
  cases progress with
  | importing =>
    obtain rfl : call = .getEnclaveStatus := h
    cases response with
    | error e => rfl
    | ok bytes => cases hclient : state.kmsClient <;> simp [advance, hclient] <;> rfl
  | sent client command =>
    have hcommand : call.command = some command := h
    cases command with
    | EncryptCommand shareData =>
      obtain rfl : call = .encryptShare shareData := by
        cases call <;> simp_all [KmsCall.command]
      rcases response with e | _ | ⟨b, rest⟩
      · trivial
      · trivial
      · exact ⟨shareData, b :: rest, rfl, rfl, hanswer _ client _ rfl rfl⟩
    | DecryptCommand ciphertextBlob =>
      obtain ⟨ciphertextHex, rfl, rfl⟩ : ∃ ciphertextHex, call = .decryptCiphertext ciphertextHex ∧
          ciphertextBlob = Licensing.bufferFromHex (removeHexPrefix ciphertextHex) := by
        cases call <;> simp_all [KmsCall.command]
      rcases response with e | _ | ⟨b, rest⟩
      · trivial
      · trivial
      · exact ⟨ciphertextHex, rfl, List.cons_ne_nil _ _, hanswer _ client _ rfl rfl⟩
    | DescribeKeyCommand =>
      obtain rfl : call = .getEnclaveStatus := by
        cases call <;> simp_all [KmsCall.command]
      cases response <;> rfl
  | finished result => exact h

/-- **Step.** The operations stay sound. -/
theorem sound_step {state : KmsState} {event : KmsEvent}
    (h : ∀ operation ∈ state.operations, Sound plaintextOf operation)
    (hanswers : Answers plaintextOf state event) :
    ∀ operation ∈ (step state event).operations, Sound plaintextOf operation := by
  cases event with
  | constructed =>
    rw [step, constructed]
    split
    · exact h
    · exact h
  | begin call =>
    intro operation hmem
    rcases List.mem_append.mp hmem with hold | hnew
    · exact h operation hold
    · rw [List.mem_singleton.mp hnew]
      exact sound_start state call
  | resume k response random =>
    rw [step, resume]
    cases hk : state.operations[k]? with
    | none => exact h
    | some old =>
      intro operation hmem
      rcases List.mem_or_eq_of_mem_set hmem with hold | rfl
      · exact h operation hold
      · apply sound_advance (h old (List.mem_of_getElem? hk))
        rintro bytes client command rfl hsent
        apply hanswers old.call client command
        rw [hk, ← hsent]
  | zeroize => exact h
  | resetAndAttest => exact h
  | attest imported =>
    rw [step, attest]
    split
    · exact h
    · cases imported <;> exact h

theorem bufferFromHex_bytesToHex (bs : Bytes) :
    Licensing.bufferFromHex (bytesToHex bs) = bs := by
  induction bs with
  | nil => rfl
  | cons b bs ih =>
    have hb := b.toNat_lt
    rw [bytesToHex, List.flatMap_cons, ← bytesToHex, List.cons_append, List.cons_append,
      List.nil_append, Licensing.bufferFromHex, hexDigitValue_hexDigit (by omega),
      hexDigitValue_hexDigit (by omega), ih]
    dsimp only
    rw [Nat.div_add_mod', UInt8.ofNat_toNat]

/-- **Round trip.** Of a service that decrypts to what it encrypted, whatever calls, zeroizations
and resets come between: `decryptCiphertext` of a text that `encryptShare` returned gives the
share, which is not empty. `decryptShare` never gives one. -/
theorem kms_round_trip {events : List KmsEvent}
    (h : Always step AWSKMSHSMDriver events (Answers plaintextOf)) :
    let operations := (run step AWSKMSHSMDriver events).operations
    (∀ shareData text data,
      ⟨.encryptShare shareData, .finished (.ok (.encrypted text))⟩ ∈ operations →
      ⟨.decryptCiphertext text, .finished (.ok (.decrypted data))⟩ ∈ operations →
      data = shareData ∧ data ≠ []) ∧
    ∀ result, ⟨.decryptShare, .finished (.ok result)⟩ ∉ operations := by
  intro operations
  have hsound : ∀ operation ∈ operations, Sound plaintextOf operation := by
    refine run_induction (fun _ state => ∀ operation ∈ state.operations,
      Sound plaintextOf operation) ?_ (fun _ event h => sound_step h) h
    intro operation hmem
    cases hmem
  constructor
  · intro shareData text data hencrypted hdecrypted
    obtain ⟨shareData', ciphertextBlob, hcall, rfl, hblob⟩ := hsound _ hencrypted
    obtain ⟨text', hcall', hne, hdata⟩ := hsound _ hdecrypted
    cases hcall
    cases hcall'
    rw [removeHexPrefix_append, bufferFromHex_bytesToHex, hblob] at hdata
    exact ⟨(Option.some.inj hdata).symm, hne⟩
  · intro result hmem
    have := hsound _ hmem
    cases result with
    | encrypted text =>
      obtain ⟨_, _, hcall, -⟩ := this
      cases hcall
    | decrypted data =>
      obtain ⟨_, hcall, -⟩ := this
      cases hcall
    | report report => cases this

/-- A share is encrypted and decrypted, with a ciphertext that is one byte longer. The answer to
the second command comes after a zeroization. -/
def oneShare : List KmsEvent :=
  [.constructed, .begin (.encryptShare [7]), .resume 0 (.ok [0, 7]) [],
    .begin (.decryptCiphertext (js "0x0007")), .zeroize, .resume 1 (.ok [7]) []]

theorem oneShare_operations : (run step AWSKMSHSMDriver oneShare).operations =
    [⟨.encryptShare [7], .finished (.ok (.encrypted (js "0x0007")))⟩,
      ⟨.decryptCiphertext (js "0x0007"), .finished (.ok (.decrypted [7]))⟩] := rfl

theorem oneShare_answers :
    Always step AWSKMSHSMDriver oneShare (Answers fun blob => some blob.tail) := by
  simp only [oneShare, always_cons, Answers, true_and]
  refine ⟨?_, ?_, always_nil⟩
  · rintro call client command ⟨⟩
    rfl
  · rintro call client command ⟨⟩
    rfl

theorem kms_round_trip_one :
    (run step AWSKMSHSMDriver oneShare).operations =
      [⟨.encryptShare [7], .finished (.ok (.encrypted (js "0x0007")))⟩,
        ⟨.decryptCiphertext (js "0x0007"), .finished (.ok (.decrypted [7]))⟩] ∧
    ([7] : Bytes) = [7] ∧ ([7] : Bytes) ≠ [] :=
  ⟨oneShare_operations, (kms_round_trip oneShare_answers).1 [7] (js "0x0007") [7]
    (by rw [oneShare_operations]; exact List.mem_cons_self)
    (by rw [oneShare_operations]; exact List.mem_cons_of_mem _ List.mem_cons_self)⟩

end BioFire.Kms
