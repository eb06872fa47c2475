import BioFire.HsmEnclave

/-!
# Shares read back (`src/lib/crypto/hsm_enclave.ts`)

Calls of `encryptShare` and `decryptShare` that are awaited one after another. The master
secret is optional in both, and each draws one of its own when it is left out.

* `complete_encryptShare`, `complete_decryptShare`: what a completed call returns;
* `decryptShare_returns_iff`: which encrypted shares can be read back.
-/

namespace BioFire.Enclave

open Runs

variable {Material Key : Type}

/-- What `secureRandomBytes` returns during a call. -/
structure ShareDraws where
  /-- The default of the master secret. -/
  masterSecret : Bytes
  salt : Bytes
  iv : Bytes
  salt_length : salt.length = 16
  iv_length : iv.length = 12

inductive ShareCall where
  | encryptShare (shareId : JSString) (shareData : Bytes) (masterSecret : Option Bytes)
  | decryptShare (shareId : JSString) (masterSecret : Option Bytes)

/-- The call up to its first await; an omitted secret is drawn. -/
def ShareCall.begin : ShareCall → ShareDraws → EnclaveEvent
  | encryptShare shareId shareData masterSecret, draws =>
    .encryptShare shareId shareData (masterSecret.getD draws.masterSecret) draws.salt draws.iv
  | decryptShare shareId masterSecret, draws =>
    .decryptShare shareId (masterSecret.getD draws.masterSecret)

/-- The call and its three awaits. -/
def complete (crypto : WebCrypto Material Key) (state : EnclaveState Material Key)
    (call : ShareCall × ShareDraws) : EnclaveState Material Key :=
  let k := state.operations.length
  run (step crypto) state [call.1.begin call.2, .resume k, .resume k, .resume k]

/-- What the call returns or throws. -/
def result (crypto : WebCrypto Material Key) (state : EnclaveState Material Key)
    (call : ShareCall × ShareDraws) : Option (Except JSError ShareResult) :=
  match (complete crypto state call).operations[state.operations.length]?.map
    ShareOperation.progress with
  | some (.finished result) => some result
  | _ => none

/-- `deriveAESKey` -/
def deriveAESKey (crypto : WebCrypto Material Key) (masterSecret salt : Bytes) :
    Except JSError Key := do
  let keyMaterial ← crypto.importKey masterSecret
  crypto.deriveKey keyMaterial salt

/-- Decryption inverts encryption under the same key, and fails under another. -/
structure AesGcm (crypto : WebCrypto Material Key) : Prop where
  decrypt_encrypt : ∀ {key iv data ciphertext}, crypto.encrypt key iv data = .ok ciphertext →
    crypto.decrypt key iv ciphertext = .ok data
  decrypt_other : ∀ {key key' iv data ciphertext},
    crypto.encrypt key iv data = .ok ciphertext → key' ≠ key →
      ∃ e, crypto.decrypt key' iv ciphertext = .error e

/-- The call is an encryption of the share, and it succeeds. -/
def Encrypts (crypto : WebCrypto Material Key) (shareId : JSString)
    (state : EnclaveState Material Key) (call : ShareCall × ShareDraws) : Prop :=
  (∃ shareData masterSecret, call.1 = .encryptShare shareId shareData masterSecret) ∧
    ∃ text, result crypto state call = some (.ok text)

/-! ## Completed calls -/

variable {crypto : WebCrypto Material Key}

theorem resume_last (state : EnclaveState Material Key)
    (shares : InsertionMap JSString StoredShare)
    (operations : List (ShareOperation Material Key)) (last : ShareOperation Material Key) :
    resume crypto { state with operations := operations ++ [last], encryptedShares := shares }
        operations.length =
      { state with
        operations := operations ++ [{ last with progress := (advance crypto last).1 }]
        encryptedShares := (advance crypto last).2.elim shares fun combined =>
          shares.set last.shareId ⟨combined, operations.length⟩ } := by
  rw [resume_eq (by simp : (operations ++ [last])[operations.length]? = some last)]
  cases (advance crypto last).2 <;> simp

theorem resume_finished (state : EnclaveState Material Key)
    (shares : InsertionMap JSString StoredShare)
    (operations : List (ShareOperation Material Key)) {last : ShareOperation Material Key}
    {returned : Except JSError ShareResult} (h : last.progress = .finished returned) :
    resume crypto { state with operations := operations ++ [last], encryptedShares := shares }
        operations.length =
      { state with operations := operations ++ [last], encryptedShares := shares } := by
  have hadvance : advance crypto last = (last.progress, none) := by
    simp only [advance, h]
  rw [resume_last, hadvance]
  rfl

/-- What an operation returns that is not disturbed, and the bytes it stores. -/
def outcome (crypto : WebCrypto Material Key) (operation : ShareOperation Material Key) :
    Except JSError ShareResult × Option Bytes :=
  match deriveAESKey crypto operation.masterSecret operation.salt with
  | .error e => (.error e, none)
  | .ok key =>
    match operation.task with
    | .encrypt shareData =>
      match crypto.encrypt key operation.iv shareData with
      | .error e => (.error e, none)
      | .ok ciphertext =>
        let combined := operation.salt ++ operation.iv ++ ciphertext
        (.ok (.encrypted (js "0x" ++ bytesToHex combined)), some combined)
    | .decrypt ciphertext =>
      match crypto.decrypt key operation.iv ciphertext with
      | .error e => (.error e, none)
      | .ok data => (.ok (.decrypted data), none)

theorem outcome_decrypt_stored {operation : ShareOperation Material Key} {ciphertext : Bytes}
    (h : operation.task = .decrypt ciphertext) : (outcome crypto operation).2 = none := by
  simp only [outcome, h]
  split
  · rfl
  · split <;> rfl

theorem outcome_ok_of_stored {operation : ShareOperation Material Key} {combined : Bytes}
    (h : (outcome crypto operation).2 = some combined) :
    ∃ returned, (outcome crypto operation).1 = .ok returned := by
  unfold outcome at h ⊢
  split at h
  · cases h
  next key hkey =>
    split at h
    · split at h
      · cases h
      · exact ⟨_, rfl⟩
    · split at h <;> cases h

theorem outcome_encrypted {operation : ShareOperation Material Key} {shareData : Bytes}
    {returned : ShareResult} (htask : operation.task = .encrypt shareData)
    (h : (outcome crypto operation).1 = .ok returned) :
    ∃ key ciphertext, deriveAESKey crypto operation.masterSecret operation.salt = .ok key ∧
      crypto.encrypt key operation.iv shareData = .ok ciphertext ∧
      (outcome crypto operation).2 = some (operation.salt ++ operation.iv ++ ciphertext) := by
  simp only [outcome, htask] at h ⊢
  split at h
  · cases h
  next key hkey =>
    split at h
    · cases h
    next ciphertext hencrypt => exact ⟨key, ciphertext, hkey, hencrypt, rfl⟩

theorem outcome_decrypted_iff (haes : AesGcm crypto) {operation : ShareOperation Material Key}
    {key : Key} {shareData ciphertext : Bytes} (htask : operation.task = .decrypt ciphertext)
    (hencrypt : crypto.encrypt key operation.iv shareData = .ok ciphertext) :
    (outcome crypto operation).1 = .ok (.decrypted shareData) ↔
      deriveAESKey crypto operation.masterSecret operation.salt = .ok key := by
  constructor
  · intro h
    simp only [outcome, htask] at h
    split at h
    · cases h
    next key' hkey =>
      by_cases heq : key' = key
      · rw [hkey, heq]
      · obtain ⟨e, herror⟩ := haes.decrypt_other hencrypt heq
        rw [herror] at h
        cases h
  · intro hkey
    simp only [outcome, htask, hkey, haes.decrypt_encrypt hencrypt]

theorem resume_three (state : EnclaveState Material Key)
    (operations : List (ShareOperation Material Key)) {last : ShareOperation Material Key}
    (h : last.progress = .importingKey) :
    run (step crypto) { state with operations := operations ++ [last] }
        [.resume operations.length, .resume operations.length, .resume operations.length] =
      { state with
        operations := operations ++ [{ last with progress := .finished (outcome crypto last).1 }]
        encryptedShares := (outcome crypto last).2.elim state.encryptedShares fun combined =>
          state.encryptedShares.set last.shareId ⟨combined, operations.length⟩ } := by
  change resume crypto (resume crypto (resume crypto _ _) _) _ = _
  rw [resume_last]
  cases himport : crypto.importKey last.masterSecret with
  | error e =>
    have hfirst : advance crypto last = (.finished (.error e), none) := by
      simp only [advance, h, himport]
    rw [hfirst, resume_finished _ _ _ rfl, resume_finished _ _ _ rfl]
    have hkey : deriveAESKey crypto last.masterSecret last.salt = .error e := by
      rw [deriveAESKey, himport]
      rfl
    simp [outcome, hkey]
  | ok keyMaterial =>
    have hfirst : advance crypto last = (.derivingKey keyMaterial, none) := by
      simp only [advance, h, himport]
    have hkey : deriveAESKey crypto last.masterSecret last.salt =
        crypto.deriveKey keyMaterial last.salt := by
      rw [deriveAESKey, himport]
      rfl
    rw [hfirst, resume_last]
    cases hderive : crypto.deriveKey keyMaterial last.salt with
    | error e =>
      simp only [advance, hderive]
      rw [resume_finished _ _ _ rfl]
      simp [outcome, hkey, hderive]
    | ok key =>
      simp only [advance, hderive]
      rw [resume_last]
      cases htask : last.task with
      | encrypt shareData => cases hencrypt : crypto.encrypt key last.iv shareData <;>
          simp [outcome, hkey, advance, hderive, htask, hencrypt]
      | decrypt ciphertext => cases hdecrypt : crypto.decrypt key last.iv ciphertext <;>
          simp [outcome, hkey, advance, hderive, htask, hdecrypt]

theorem complete_of_importing {state : EnclaveState Material Key} (call : ShareCall × ShareDraws)
    {operation : ShareOperation Material Key}
    (hbegin : step crypto state (call.1.begin call.2) =
      { state with operations := state.operations ++ [operation] })
    (h : operation.progress = .importingKey) :
    complete crypto state call =
        { state with
          operations := state.operations ++
            [{ operation with progress := .finished (outcome crypto operation).1 }]
          encryptedShares := (outcome crypto operation).2.elim state.encryptedShares
            fun combined =>
              state.encryptedShares.set operation.shareId ⟨combined, state.operations.length⟩ } ∧
      result crypto state call = some (outcome crypto operation).1 := by
  have hcomplete : complete crypto state call = run (step crypto)
      (step crypto state (call.1.begin call.2)) [.resume state.operations.length,
        .resume state.operations.length, .resume state.operations.length] := rfl
  rw [hbegin, resume_three state _ h] at hcomplete
  refine ⟨hcomplete, ?_⟩
  rw [result, hcomplete]
  simp

theorem complete_of_finished {state : EnclaveState Material Key} (call : ShareCall × ShareDraws)
    {operation : ShareOperation Material Key} {returned : Except JSError ShareResult}
    (hbegin : step crypto state (call.1.begin call.2) =
      { state with operations := state.operations ++ [operation] })
    (h : operation.progress = .finished returned) :
    complete crypto state call =
        { state with operations := state.operations ++ [operation] } ∧
      result crypto state call = some returned := by
  have hcomplete : complete crypto state call = run (step crypto)
      (step crypto state (call.1.begin call.2)) [.resume state.operations.length,
        .resume state.operations.length, .resume state.operations.length] := rfl
  change _ = resume crypto (resume crypto (resume crypto _ _) _) _ at hcomplete
  rw [hbegin, resume_finished state state.encryptedShares state.operations h,
    resume_finished state state.encryptedShares state.operations h,
    resume_finished state state.encryptedShares state.operations h] at hcomplete
  refine ⟨hcomplete, ?_⟩
  rw [result, hcomplete]
  simp [h]

variable (crypto) in
theorem complete_encryptShare {state : EnclaveState Material Key}
    (hstatus : state.status = .HEALTHY) (shareId : JSString) (shareData : Bytes)
    (masterSecret : Option Bytes) (draws : ShareDraws) :
    ∃ operation : ShareOperation Material Key, operation.task = .encrypt shareData ∧
      operation.masterSecret = masterSecret.getD draws.masterSecret ∧
      operation.salt = draws.salt ∧ operation.iv = draws.iv ∧
      (complete crypto state (.encryptShare shareId shareData masterSecret, draws)).status =
        .HEALTHY ∧
      (complete crypto state (.encryptShare shareId shareData masterSecret,
        draws)).encryptedShares = (outcome crypto operation).2.elim state.encryptedShares
          (fun combined => state.encryptedShares.set shareId
            ⟨combined, state.operations.length⟩) ∧
      result crypto state (.encryptShare shareId shareData masterSecret, draws) =
        some (outcome crypto operation).1 := by
  have hbegin : step crypto state (.encryptShare shareId shareData
      (masterSecret.getD draws.masterSecret) draws.salt draws.iv) =
      { state with operations := state.operations ++ [{
        shareId, masterSecret := masterSecret.getD draws.masterSecret, salt := draws.salt
        iv := draws.iv, task := .encrypt shareData, begun := state.zeroizations
        progress := .importingKey }] } := by
    simp [step, encryptShare, hstatus]
  obtain ⟨hcomplete, hresult⟩ := complete_of_importing
    (.encryptShare shareId shareData masterSecret, draws) hbegin rfl
  refine ⟨_, rfl, rfl, rfl, rfl, ?_, ?_, hresult⟩
  · rw [hcomplete, hstatus]
  · rw [hcomplete]

variable (crypto) in
theorem complete_decryptShare {state : EnclaveState Material Key}
    (hstatus : state.status = .HEALTHY) {shareId : JSString} {stored : StoredShare}
    (hget : state.encryptedShares.get shareId = some stored) (masterSecret : Option Bytes)
    (draws : ShareDraws) :
    ∃ operation : ShareOperation Material Key,
      operation.task = .decrypt (stored.combined.drop 28) ∧
      operation.masterSecret = masterSecret.getD draws.masterSecret ∧
      operation.salt = slice stored.combined 0 16 ∧
      operation.iv = slice stored.combined 16 28 ∧
      (complete crypto state (.decryptShare shareId masterSecret, draws)).status = .HEALTHY ∧
      (complete crypto state (.decryptShare shareId masterSecret, draws)).encryptedShares =
        state.encryptedShares ∧
      result crypto state (.decryptShare shareId masterSecret, draws) =
        some (outcome crypto operation).1 := by
  have hbegin : step crypto state (.decryptShare shareId
      (masterSecret.getD draws.masterSecret)) =
      { state with operations := state.operations ++ [{
        shareId, masterSecret := masterSecret.getD draws.masterSecret
        salt := slice stored.combined 0 16, iv := slice stored.combined 16 28
        task := .decrypt (stored.combined.drop 28), begun := state.zeroizations
        progress := .importingKey }] } := by
    simp [step, decryptShare, hstatus, hget]
  obtain ⟨hcomplete, hresult⟩ :=
    complete_of_importing (.decryptShare shareId masterSecret, draws) hbegin rfl
  refine ⟨_, rfl, rfl, rfl, rfl, ?_, ?_, hresult⟩
  · rw [hcomplete, hstatus]
  · rw [hcomplete, outcome_decrypt_stored rfl]
    rfl

variable (crypto) in
theorem complete_decryptShare_missing {state : EnclaveState Material Key}
    (hstatus : state.status = .HEALTHY) {shareId : JSString}
    (hget : state.encryptedShares.get shareId = none) (masterSecret : Option Bytes)
    (draws : ShareDraws) :
    (complete crypto state (.decryptShare shareId masterSecret, draws)).status = .HEALTHY ∧
      (complete crypto state (.decryptShare shareId masterSecret, draws)).encryptedShares =
        state.encryptedShares := by
  have hbegin : step crypto state (.decryptShare shareId
      (masterSecret.getD draws.masterSecret)) =
      { state with operations := state.operations ++ [{
        shareId, masterSecret := masterSecret.getD draws.masterSecret
        salt := slice [] 0 16, iv := slice [] 16 28
        task := .decrypt [], begun := state.zeroizations
        progress := .finished (.error (plainError (js "Share " ++ shareId ++
          js " not found"))) }] } := by
    simp [step, decryptShare, hstatus, hget]
  obtain ⟨hcomplete, -⟩ :=
    complete_of_finished (.decryptShare shareId masterSecret, draws) hbegin rfl
  rw [hcomplete]
  exact ⟨hstatus, rfl⟩

/-- A completed call that does not encrypt the share leaves it as it is. -/
theorem complete_keeps {state : EnclaveState Material Key} {call : ShareCall × ShareDraws}
    {shareId : JSString} (hstatus : state.status = .HEALTHY)
    (hcall : ¬ Encrypts crypto shareId state call) :
    (complete crypto state call).status = .HEALTHY ∧
      (complete crypto state call).encryptedShares.get shareId =
        state.encryptedShares.get shareId := by
  obtain ⟨call, draws⟩ := call
  cases call with
  | encryptShare shareId' shareData masterSecret =>
    obtain ⟨operation, htask, -, -, -, hhealthy, hshares, hresult⟩ :=
      complete_encryptShare crypto hstatus shareId' shareData masterSecret draws
    refine ⟨hhealthy, ?_⟩
    rw [hshares]
    cases hstored : (outcome crypto operation).2 with
    | none => rfl
    | some combined =>
      rw [Option.elim_some, InsertionMap.get_set, if_neg]
      rintro rfl
      obtain ⟨text, hok⟩ := outcome_ok_of_stored hstored
      exact hcall ⟨⟨shareData, masterSecret, rfl⟩, text, hok ▸ hresult⟩
  | decryptShare shareId' masterSecret =>
    cases hget : state.encryptedShares.get shareId' with
    | none =>
      obtain ⟨hhealthy, hshares⟩ :=
        complete_decryptShare_missing crypto hstatus hget masterSecret draws
      exact ⟨hhealthy, by rw [hshares]⟩
    | some stored =>
      obtain ⟨-, -, -, -, -, hhealthy, hshares, -⟩ :=
        complete_decryptShare crypto hstatus hget masterSecret draws
      exact ⟨hhealthy, by rw [hshares]⟩

/-! ## Shares read back -/

theorem combined_parts (draws : ShareDraws) (ciphertext : Bytes) :
    slice (draws.salt ++ draws.iv ++ ciphertext) 0 16 = draws.salt ∧
      slice (draws.salt ++ draws.iv ++ ciphertext) 16 28 = draws.iv ∧
      (draws.salt ++ draws.iv ++ ciphertext).drop 28 = ciphertext := by
  have hsalt := draws.salt_length
  have hiv := draws.iv_length
  have hfirst : slice ([] ++ (draws.salt ++ (draws.iv ++ ciphertext))) 0 16 = draws.salt :=
    slice_middle (by simp) (by simp [hsalt])
  have hsecond : slice (draws.salt ++ (draws.iv ++ ciphertext)) 16 28 = draws.iv :=
    slice_middle (by simp [hsalt]) (by simp [hsalt, hiv])
  rw [← List.append_assoc] at hsecond
  rw [List.nil_append, ← List.append_assoc] at hfirst
  exact ⟨hfirst, hsecond, List.drop_left' (by simp [hsalt, hiv])⟩

/-- **Shares read back.** What `decryptShare` returns with the same secret given or left
out are the bytes of the last encryption of the share, exactly when the secret was given or
both secrets drawn lead to the same key. -/
theorem decryptShare_returns_iff (haes : AesGcm crypto) {start : EnclaveState Material Key}
    (hstatus : start.status = .HEALTHY) {shareId : JSString} {shareData : Bytes}
    {masterSecret : Option Bytes} {draws draws' : ShareDraws}
    (hstored : Encrypts crypto shareId start
      (.encryptShare shareId shareData masterSecret, draws))
    {between : List (ShareCall × ShareDraws)}
    (hbetween : Always (complete crypto)
      (complete crypto start (.encryptShare shareId shareData masterSecret, draws)) between
      fun state call => ¬ Encrypts crypto shareId state call) :
    result crypto
        (run (complete crypto)
          (complete crypto start (.encryptShare shareId shareData masterSecret, draws)) between)
        (.decryptShare shareId masterSecret, draws') = some (.ok (.decrypted shareData)) ↔
      masterSecret ≠ none ∨
        deriveAESKey crypto draws'.masterSecret draws.salt =
          deriveAESKey crypto draws.masterSecret draws.salt := by
  obtain ⟨operation, htask, hsecret, hsalt, hiv, hhealthy, hshares, hresult⟩ :=
    complete_encryptShare crypto hstatus shareId shareData masterSecret draws
  obtain ⟨-, text, hok⟩ := hstored
  obtain ⟨key, ciphertext, hkey, hencrypt, hcombined⟩ :=
    outcome_encrypted htask (Option.some.inj (hresult.symm.trans hok))
  rw [hcombined, Option.elim_some, hsalt, hiv] at hshares
  rw [hsecret, hsalt] at hkey
  rw [hiv] at hencrypt
  generalize complete crypto start (.encryptShare shareId shareData masterSecret, draws) = stored
    at hbetween hhealthy hshares ⊢
  have hget : stored.encryptedShares.get shareId = some
      ⟨draws.salt ++ draws.iv ++ ciphertext, start.operations.length⟩ := by
    rw [hshares, InsertionMap.get_set_self]
  obtain ⟨hlater, hkept⟩ := run_induction
    (fun _ state => state.status = .HEALTHY ∧ state.encryptedShares.get shareId = some
      ⟨draws.salt ++ draws.iv ++ ciphertext, start.operations.length⟩) ⟨hhealthy, hget⟩
    (fun _ _ hinv hcall => ⟨(complete_keeps hinv.1 hcall).1,
      (complete_keeps hinv.1 hcall).2.trans hinv.2⟩) hbetween
  obtain ⟨operation', htask', hsecret', hsalt', hiv', -, -, hresult'⟩ :=
    complete_decryptShare crypto hlater hkept masterSecret draws'
  obtain ⟨hfirst, hsecond, hrest⟩ := combined_parts draws ciphertext
  rw [hfirst] at hsalt'
  rw [hsecond] at hiv'
  rw [hrest] at htask'
  rw [hresult', Option.some_inj, outcome_decrypted_iff haes htask' (hiv' ▸ hencrypt), hsecret',
    hsalt', ← hkey]
  cases masterSecret with
  | none => simp
  | some secret => simp

/-- Keys are the first byte of the secret, and stand before the data. -/
def keyedCrypto : WebCrypto Bytes UInt8 where
  importKey masterSecret := .ok masterSecret
  deriveKey keyMaterial _ := .ok (keyMaterial.headD 0)
  encrypt key _ data := .ok (key :: data)
  decrypt key _ ciphertext :=
    if ciphertext.head? = some key then .ok ciphertext.tail else .error (plainError [])

theorem aesGcm_keyedCrypto : AesGcm keyedCrypto where
  decrypt_encrypt := by
    rintro key iv data _ ⟨⟩
    simp [keyedCrypto]
  decrypt_other := by
    rintro key key' iv data _ ⟨⟩ hne
    exact ⟨plainError [], by simp [keyedCrypto, hne.symm]⟩

/-- Draws that repeat one byte. -/
def drawn (b : UInt8) : ShareDraws where
  masterSecret := List.replicate 32 b
  salt := List.replicate 16 b
  iv := List.replicate 12 b
  salt_length := List.length_replicate
  iv_length := List.length_replicate

/-- The encryption of three bytes with the secret left out. -/
def defaultSecret : ShareCall × ShareDraws := (.encryptShare (js "s1") [1, 2, 3] none, drawn 7)

theorem encrypts_defaultSecret :
    Encrypts keyedCrypto (js "s1") (newDriver []) defaultSecret :=
  ⟨⟨_, _, rfl⟩, _, rfl⟩

/-- With one draw for both calls the bytes are read back. -/
theorem default_share_read_back :
    result keyedCrypto (complete keyedCrypto (newDriver []) defaultSecret)
        (.decryptShare (js "s1") none, drawn 7) = some (.ok (.decrypted [1, 2, 3])) ↔
      (none : Option Bytes) ≠ none ∨
        deriveAESKey keyedCrypto (drawn 7).masterSecret (drawn 7).salt =
          deriveAESKey keyedCrypto (drawn 7).masterSecret (drawn 7).salt :=
  decryptShare_returns_iff aesGcm_keyedCrypto rfl encrypts_defaultSecret always_nil

/-- With two draws they are lost. -/
theorem default_share_lost :
    AesGcm keyedCrypto ∧ Encrypts keyedCrypto (js "s1") (newDriver []) defaultSecret ∧
      result keyedCrypto (complete keyedCrypto (newDriver []) defaultSecret)
        (.decryptShare (js "s1") none, drawn 8) ≠ some (.ok (.decrypted [1, 2, 3])) := by
  refine ⟨aesGcm_keyedCrypto, encrypts_defaultSecret, ?_⟩
  have hlost : result keyedCrypto (complete keyedCrypto (newDriver []) defaultSecret)
      (.decryptShare (js "s1") none, drawn 8) = some (.error (plainError [])) := rfl
  rw [hlost]
  simp

end BioFire.Enclave
