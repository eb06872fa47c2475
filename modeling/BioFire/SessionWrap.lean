import BioFire.SessionGuard

/-!
# Wrapped shares (`src/lib/security/session_guard.ts`)

What `wrapShareWithSessionTokens` writes, read by `unwrapShareWithSessionTokens`. The
ciphertext is cut into data and tag, and four of the seven fields are hex texts.

* `unwrap_wrapped`: a wrapped share is unwrapped while its session lasts;
* `hmacKeyBlock_append_zeros`: zeros behind a salt are not seen by HMAC;
* `unwrap_returns_wrapped`: what an accepted record has in common with a wrapped one.
-/

namespace BioFire.SessionGuard

open Runs

variable {Key : Type} {oracles : GuardOracles Key}

/-! ## The fields of a record -/

/-- The two parts of a ciphertext, shorter than the tag or not. -/
theorem slice_tag (combined : Bytes) :
    slice combined 0 (-16) ++ slice combined (-16) combined.length = combined := by
  have hstart : sliceIndex combined.length 0 = 0 := rfl
  have hstop : sliceIndex combined.length combined.length = combined.length := by
    rw [sliceIndex, if_neg (by omega)]
    omega
  rw [slice, slice, hstart, hstop, List.take_length, List.drop_zero, List.take_append_drop]

/-- What is decrypted of a wrapped share is what was encrypted. -/
theorem decryptionInput_wrapped {shareId : JSString} {rawShareBytes salt iv : Bytes}
    {tokens : SessionBindingTokens} {boundShare : EncryptedBoundShare}
    (h : wrapShareWithSessionTokens oracles shareId rawShareBytes tokens salt iv =
      .ok boundShare) :
    ∃ combined, encryptShare oracles rawShareBytes tokens salt iv = .ok combined ∧
      decryptionInput boundShare = .ok (salt, iv, combined) ∧
      boundShare.sessionBindingHash = bindingHash oracles tokens.sessionId tokens.jwtToken
        tokens.cookieFingerprint := by
  obtain ⟨combined, hencrypt, hreturn⟩ := bind_eq_ok h
  cases hreturn
  refine ⟨combined, hencrypt, ?_, rfl⟩
  simp only [decryptionInput, dropHexMark_append, hexToBytes_bytesToHex, bind, Except.bind,
    pure, Except.pure, slice_tag]

/-! ## The round trip -/

variable (oracles) in
/-- What AES-GCM encrypts under a key, it decrypts under that key. -/
def DecryptsEncrypted : Prop :=
  ∀ {key cryptoKey iv data combined}, oracles.importKey key .encrypt = .ok cryptoKey →
    oracles.encrypt cryptoKey iv data = .ok combined →
    ∃ cryptoKey', oracles.importKey key .decrypt = .ok cryptoKey' ∧
      oracles.decrypt cryptoKey' iv combined = .ok data

theorem unwrap_of_decrypts {state : GuardState} {binding : SessionBindingTokens} {now : ℤ}
    (hactive : state.activeSessions.get binding.sessionId = some binding)
    (hexpires : now ≤ binding.expiresAt) {boundShare : EncryptedBoundShare}
    (hhash : boundShare.sessionBindingHash = bindingHash oracles binding.sessionId
      binding.jwtToken binding.cookieFingerprint)
    {salt iv combined plaintext : Bytes} {cryptoKey : Key}
    (hinput : decryptionInput boundShare = .ok (salt, iv, combined))
    (himport : oracles.importKey (deriveKey oracles binding.jwtToken binding.cookieFingerprint
      salt) .decrypt = .ok cryptoKey)
    (hdecrypt : oracles.decrypt cryptoKey iv combined = .ok plaintext) :
    unwrapShareWithSessionTokens oracles state boundShare binding.jwtToken
      binding.cookieFingerprint binding.sessionId now = .ok plaintext := by
  have hfilter : (state.activeSessions.get binding.sessionId).filter
      (fun s => !(s.expiresAt < now)) = some binding := by
    rw [hactive, Option.filter_some, if_pos (by simpa using hexpires)]
  rw [unwrapShareWithSessionTokens, hfilter]
  simp only [ne_eq, not_true_eq_false, or_self, if_false, hhash, hinput, himport, hdecrypt,
    bind, Except.bind]

/-- **The round trip of a wrapped share.** While the session of the binding is active and
not expired, its tokens unwrap what was wrapped under them. -/
theorem unwrap_wrapped (haes : DecryptsEncrypted oracles) {state : GuardState}
    {binding : SessionBindingTokens} {now : ℤ}
    (hactive : state.activeSessions.get binding.sessionId = some binding)
    (hexpires : now ≤ binding.expiresAt) {shareId : JSString} {rawShareBytes salt iv : Bytes}
    {boundShare : EncryptedBoundShare}
    (hwrap : wrapShareWithSessionTokens oracles shareId rawShareBytes binding salt iv =
      .ok boundShare) :
    unwrapShareWithSessionTokens oracles state boundShare binding.jwtToken
      binding.cookieFingerprint binding.sessionId now = .ok rawShareBytes := by
  obtain ⟨combined, hencrypt, hinput, hhash⟩ := decryptionInput_wrapped hwrap
  obtain ⟨cryptoKey, himport, hcombined⟩ := bind_eq_ok hencrypt
  obtain ⟨cryptoKey', himport', hdecrypt⟩ := haes himport hcombined
  exact unwrap_of_decrypts hactive hexpires hhash hinput himport' hdecrypt

theorem decryptsEncrypted_sample : DecryptsEncrypted sampleOracles := by
  rintro key _ iv data combined ⟨⟩ hencrypt
  simp only [sampleOracles] at hencrypt ⊢
  split at hencrypt
  next h =>
    obtain ⟨hkey, rfl, rfl⟩ := h
    cases hencrypt
    obtain rfl : key = sampleKey.1 := (Prod.mk.inj hkey).1
    exact ⟨_, rfl, by simp⟩
  · cases hencrypt

theorem wrap_sample : wrapShareWithSessionTokens sampleOracles (js "share") [7] sampleBinding
    sampleSalt sampleIv = .ok sampleBoundShare := by
  decide

theorem active_sample : (run step newGuard samplePast).activeSessions.get
    sampleBinding.sessionId = some sampleBinding :=
  InsertionMap.get_set_self _ _ _

/-- The sample is unwrapped in the last millisecond of its session. -/
theorem unwrap_sample : unwrapShareWithSessionTokens sampleOracles (run step newGuard samplePast)
    sampleBoundShare sampleBinding.jwtToken sampleBinding.cookieFingerprint
    sampleBinding.sessionId SESSION_TTL_MS = .ok [7] :=
  unwrap_wrapped decryptsEncrypted_sample active_sample (by decide) wrap_sample

/-! ## Accepted records -/

/-- What HMAC-SHA256 reads of its key: a key of more than 64 bytes is hashed, and zeros fill the
block up. -/
def hmacKeyBlock (sha256 : Bytes → Digest) (key : Bytes) : Bytes :=
  let key := if 64 < key.length then (sha256 key).1 else key
  key ++ List.replicate (64 - key.length) 0

/-- Zeros behind a short key are those that fill its block up. -/
theorem hmacKeyBlock_append_zeros (sha256 : Bytes → Digest) {key : Bytes} {k : ℕ}
    (h : key.length + k ≤ 64) :
    hmacKeyBlock sha256 (key ++ List.replicate k 0) = hmacKeyBlock sha256 key := by
  have hlength : (key ++ List.replicate k 0).length = key.length + k := by
    rw [List.length_append, List.length_replicate]
  have hzeros : List.replicate k (0 : UInt8) ++ List.replicate (64 - (key.length + k)) 0 =
      List.replicate (64 - key.length) 0 := by
    rw [List.replicate_append_replicate]
    congr 1
    omega
  simp only [hmacKeyBlock, hlength]
  rw [if_neg (by omega), if_neg (by omega), hlength, List.append_assoc, hzeros]

/-- Two HMACs of the run are equal only when the blocks of their keys and their messages are. -/
def HmacCollisionFree (oracles : GuardOracles Key) (events : List GuardEvent) : Prop :=
  ∀ {salt message salt' message' : Bytes},
    Occurs step newGuard events (ComputesHmac salt message) →
    Occurs step newGuard events (ComputesHmac salt' message') →
    oracles.hmac salt message = oracles.hmac salt' message' →
    hmacKeyBlock oracles.sha256 salt = hmacKeyBlock oracles.sha256 salt' ∧ message = message'

/-- The records have one vector and one ciphertext with its tag, and salts that are one key to
HMAC. -/
def SameInput (oracles : GuardOracles Key) (boundShare wrapped : EncryptedBoundShare) : Prop :=
  ∃ salt salt' iv combined, decryptionInput boundShare = .ok (salt, iv, combined) ∧
    decryptionInput wrapped = .ok (salt', iv, combined) ∧
    hmacKeyBlock oracles.sha256 salt = hmacKeyBlock oracles.sha256 salt'

/-- The call wraps the bytes under the tokens, as the record. -/
def Produces (oracles : GuardOracles Key) (tokens : SessionBindingTokens) (rawShareBytes : Bytes)
    (boundShare : EncryptedBoundShare) (state : GuardState) (event : GuardEvent) : Prop :=
  ∃ index shareId salt iv,
    event = .wrapShareWithSessionTokens index shareId rawShareBytes salt iv ∧
    state.issued[index]? = some tokens ∧
    wrapShareWithSessionTokens oracles shareId rawShareBytes tokens salt iv = .ok boundShare

/-- **Accepted records.** A record that is unwrapped has the hash of the session presented,
and, up to the zeros that HMAC puts behind a salt, the salt, the vector and the ciphertext with its
tag of a record that was wrapped under the tokens presented. What is returned was wrapped there. -/
theorem unwrap_returns_wrapped {past : List GuardEvent} {boundShare : EncryptedBoundShare}
    {jwtToken cookieFingerprint sessionId : JSString} {now : ℤ} {plaintext : Bytes}
    (hhmac : HmacCollisionFree oracles
      (past ++ [.unwrapShareWithSessionTokens boundShare jwtToken cookieFingerprint sessionId now]))
    (haead : ∀ {salt iv combined}, decryptionInput boundShare = .ok (salt, iv, combined) →
      IdealDecryption oracles past (deriveKey oracles jwtToken cookieFingerprint salt) iv combined)
    (h : unwrapShareWithSessionTokens oracles (run step newGuard past) boundShare jwtToken
      cookieFingerprint sessionId now = .ok plaintext) :
    boundShare.sessionBindingHash = bindingHash oracles sessionId jwtToken cookieFingerprint ∧
      ∃ tokens wrapped, Occurs step newGuard past (Produces oracles tokens plaintext wrapped) ∧
        tokens.jwtToken = jwtToken ∧ tokens.cookieFingerprint = cookieFingerprint ∧
        SameInput oracles boundShare wrapped ∧
        (((run step newGuard past).issued.map
            fun binding => (binding.jwtToken, binding.cookieFingerprint)).Nodup →
          wrapped.sessionBindingHash = boundShare.sessionBindingHash) := by
  obtain ⟨binding, hactive, hexpires, rfl, rfl, hhash, salt, iv, combined, cryptoKey, hinput,
    himport, hdecrypt⟩ := of_unwrap_ok h
  have hlast := active_session_issued hactive
  refine ⟨hhash.symm, ?_⟩
  obtain ⟨before, event, after, rfl, index, shareId, salt', tokens, rfl, hissued, hkey,
    hencrypt⟩ := haead hinput himport hdecrypt
  obtain ⟨hblock, htext⟩ : hmacKeyBlock oracles.sha256 salt = hmacKeyBlock oracles.sha256 salt' ∧
        keyText binding.jwtToken binding.cookieFingerprint =
          keyText tokens.jwtToken tokens.cookieFingerprint := by
    apply hhmac (occurs_concat.mpr (Or.inr ⟨rfl, iv, combined, hinput⟩))
    · exact occurs_concat.mpr (Or.inl ⟨before, _, after, rfl, rfl, tokens, hissued, rfl⟩)
    · exact Subtype.ext hkey
  obtain ⟨wrapped, hwrap⟩ : ∃ wrapped,
      wrapShareWithSessionTokens oracles shareId plaintext tokens salt' iv = .ok wrapped :=
    exists_boundShare hencrypt
  obtain ⟨combined', hencrypt', hinput', hhash'⟩ := decryptionInput_wrapped hwrap
  obtain rfl : combined = combined' := Except.ok.inj (hencrypt.symm.trans hencrypt')
  have htokensIssued := issued_mono hissued
    (.wrapShareWithSessionTokens index shareId plaintext salt' iv :: after)
  have htokens : tokens.jwtToken = binding.jwtToken ∧
      tokens.cookieFingerprint = binding.cookieFingerprint := by
    obtain ⟨_, rawJwt, rawCookie, _, rfl⟩ := exists_newBinding hlast.mem_issued
    obtain ⟨_, rawJwt', rawCookie', _, rfl⟩ := exists_newBinding htokensIssued
    obtain ⟨rfl, rfl⟩ := keyText_inj htext
    exact ⟨rfl, rfl⟩
  refine ⟨tokens, wrapped, ⟨before, _, after, rfl, index, shareId, salt', iv, rfl, hissued, hwrap⟩,
    htokens.1, htokens.2, ⟨salt, salt', iv, combined, hinput, hinput', hblock⟩, fun hnodup => ?_⟩
  have heq := List.inj_on_of_nodup_map hnodup htokensIssued hlast.mem_issued
    (Prod.ext htokens.1 htokens.2)
  rw [hhash', heq, hlast.sessionId_eq, hhash]

/-! ## A record under another name, and one with a longer salt -/

/-- The functions of the sample, with an HMAC that sees the block of its key. -/
def blockOracles : GuardOracles (Bytes × KeyUsage) := { sampleOracles with
  hmac key message :=
    if hmacKeyBlock sampleOracles.sha256 key = hmacKeyBlock sampleOracles.sha256 sampleSalt ∧
      message = keyText sampleBinding.jwtToken sampleBinding.cookieFingerprint then sampleKey
    else zeroDigest }

/-- The wrapped share under another name. -/
def relabelledShare : EncryptedBoundShare := { sampleBoundShare with shareId := js "other" }

/-- The wrapped share with one more zero in its salt. -/
def paddedShare : EncryptedBoundShare := { sampleBoundShare with
  saltHex := js "0x" ++ bytesToHex (sampleSalt ++ [0]) }

/-- The call that presents a record with the tokens of the sample. -/
def presentSample (boundShare : EncryptedBoundShare) : GuardEvent :=
  .unwrapShareWithSessionTokens boundShare sampleBinding.jwtToken
    sampleBinding.cookieFingerprint (js "session") 0

/-- The record is that of the sample, but for what HMAC does not see of the salt. -/
def LikeSample (boundShare : EncryptedBoundShare) : Prop :=
  boundShare.sessionBindingHash = sampleBoundShare.sessionBindingHash ∧
    ∃ salt, decryptionInput boundShare = .ok (salt, sampleIv, sampleCiphertext) ∧
      hmacKeyBlock sampleOracles.sha256 salt = hmacKeyBlock sampleOracles.sha256 sampleSalt

theorem likeSample_relabelled : LikeSample relabelledShare := by
  have hsame : decryptionInput relabelledShare = decryptionInput sampleBoundShare := by
    simp only [decryptionInput, relabelledShare]
  exact ⟨rfl, sampleSalt, hsame.trans decryptionInput_sample, rfl⟩

theorem likeSample_padded : LikeSample paddedShare := by
  refine ⟨rfl, sampleSalt ++ [0], by decide, ?_⟩
  exact @hmacKeyBlock_append_zeros sampleOracles.sha256 sampleSalt 1 (by decide)

section LikeSample

variable {boundShare : EncryptedBoundShare}

/-- Every HMAC is over the same text under the block of one salt. -/
theorem hmacCollisionFree_sample (h : LikeSample boundShare) :
    HmacCollisionFree blockOracles (samplePast ++ [presentSample boundShare]) := by
  obtain ⟨-, presentedSalt, hinput, hblock⟩ := h
  have hcomputes : ∀ {salt message : Bytes},
      Occurs step newGuard (samplePast ++ [presentSample boundShare]) (ComputesHmac salt message) →
      hmacKeyBlock sampleOracles.sha256 salt = hmacKeyBlock sampleOracles.sha256 sampleSalt ∧
        message = keyText sampleBinding.jwtToken sampleBinding.cookieFingerprint := by
    intro salt message h
    simp only [samplePast, List.cons_append, List.nil_append, occurs_cons, not_occurs_nil,
      or_false] at h
    rcases h with hcreate | ⟨rfl, tokens, hissued, hmessage⟩ | ⟨hmessage, iv, combined, hpresented⟩
    · exact hcreate.elim
    · obtain rfl : sampleBinding = tokens := Option.some.inj hissued
      exact ⟨rfl, hmessage⟩
    · rw [hinput] at hpresented
      cases hpresented
      exact ⟨hblock, hmessage⟩
  intro salt message salt' message' h h' _
  obtain ⟨hsalt, rfl⟩ := hcomputes h
  obtain ⟨hsalt', rfl⟩ := hcomputes h'
  exact ⟨hsalt.trans hsalt'.symm, rfl⟩

theorem deriveKey_sample {salt : Bytes}
    (h : hmacKeyBlock sampleOracles.sha256 salt = hmacKeyBlock sampleOracles.sha256 sampleSalt) :
    deriveKey blockOracles sampleBinding.jwtToken sampleBinding.cookieFingerprint salt =
      sampleKey.1 :=
  congrArg Subtype.val (if_pos ⟨h, rfl⟩)

theorem idealDecryption_sample (h : LikeSample boundShare) {salt iv combined : Bytes}
    (hpresented : decryptionInput boundShare = .ok (salt, iv, combined)) :
    IdealDecryption blockOracles samplePast (deriveKey blockOracles sampleBinding.jwtToken
      sampleBinding.cookieFingerprint salt) iv combined := by
  obtain ⟨-, presentedSalt, hinput, hblock⟩ := h
  rw [hinput] at hpresented
  cases hpresented
  rintro _ plaintext ⟨⟩ hdecrypt
  rw [deriveKey_sample hblock] at hdecrypt ⊢
  obtain rfl : [7] = plaintext := by simpa [blockOracles, sampleOracles] using hdecrypt
  refine occurs_cons.mpr (Or.inr (occurs_cons.mpr (Or.inl ?_)))
  refine ⟨0, js "share", sampleSalt, sampleBinding, rfl, rfl, (deriveKey_sample rfl).symm, ?_⟩
  simp only [encryptShare, deriveKey_sample]
  rfl

theorem unwrap_likeSample (h : LikeSample boundShare) :
    unwrapShareWithSessionTokens blockOracles (run step newGuard samplePast) boundShare
      sampleBinding.jwtToken sampleBinding.cookieFingerprint (js "session") 0 = .ok [7] := by
  obtain ⟨hhash, presentedSalt, hinput, hblock⟩ := h
  have hbinding : boundShare.sessionBindingHash = bindingHash blockOracles
      sampleBinding.sessionId sampleBinding.jwtToken sampleBinding.cookieFingerprint := by
    rw [hhash]
    decide
  have hdecrypt : blockOracles.decrypt (sampleKey.1, .decrypt) sampleIv sampleCiphertext =
      .ok [7] := by decide
  refine unwrap_of_decrypts active_sample (by decide) hbinding hinput ?_ hdecrypt
  rw [deriveKey_sample hblock]
  rfl

end LikeSample

theorem unwrap_returns_wrapped_sample :
    paddedShare.sessionBindingHash = bindingHash blockOracles (js "session")
        sampleBinding.jwtToken sampleBinding.cookieFingerprint ∧
      ∃ tokens wrapped, Occurs step newGuard samplePast
          (Produces blockOracles tokens [7] wrapped) ∧
        tokens.jwtToken = sampleBinding.jwtToken ∧
        tokens.cookieFingerprint = sampleBinding.cookieFingerprint ∧
        SameInput blockOracles paddedShare wrapped ∧
        (((run step newGuard samplePast).issued.map
            fun binding => (binding.jwtToken, binding.cookieFingerprint)).Nodup →
          wrapped.sessionBindingHash = paddedShare.sessionBindingHash) :=
  unwrap_returns_wrapped (hmacCollisionFree_sample likeSample_padded)
    (idealDecryption_sample likeSample_padded) (unwrap_likeSample likeSample_padded)

/-- Every record that the sample wraps has the name and the salt of its one call. -/
theorem produces_sample {tokens : SessionBindingTokens} {rawShareBytes : Bytes}
    {boundShare : EncryptedBoundShare}
    (h : Occurs step newGuard samplePast (Produces blockOracles tokens rawShareBytes boundShare)) :
    boundShare.shareId = sampleBoundShare.shareId ∧
      boundShare.saltHex = sampleBoundShare.saltHex := by
  simp only [samplePast, occurs_cons, not_occurs_nil, or_false] at h
  rcases h with ⟨_, _, _, _, hcreate, -⟩ | ⟨index, shareId, salt, iv, hevent, -, hwrap⟩
  · cases hcreate
  · cases hevent
    obtain ⟨combined, -, hreturn⟩ := bind_eq_ok hwrap
    cases hreturn
    exact ⟨rfl, rfl⟩

/-- The sample, with a record that is accepted although every wrapped one has another name or
another salt. -/
structure AcceptedUnwrapped (boundShare : EncryptedBoundShare) : Prop where
  collisionFree : HmacCollisionFree blockOracles (samplePast ++ [presentSample boundShare])
  ideal : ∀ {salt iv combined}, decryptionInput boundShare = .ok (salt, iv, combined) →
    IdealDecryption blockOracles samplePast (deriveKey blockOracles sampleBinding.jwtToken
      sampleBinding.cookieFingerprint salt) iv combined
  differs : ∀ tokens rawShareBytes wrapped,
    Occurs step newGuard samplePast (Produces blockOracles tokens rawShareBytes wrapped) →
      wrapped.shareId ≠ boundShare.shareId ∨ wrapped.saltHex ≠ boundShare.saltHex
  unwraps : unwrapShareWithSessionTokens blockOracles (run step newGuard samplePast) boundShare
    sampleBinding.jwtToken sampleBinding.cookieFingerprint (js "session") 0 = .ok [7]

theorem acceptedUnwrapped_of_likeSample {boundShare : EncryptedBoundShare}
    (hlike : LikeSample boundShare)
    (hdiffers : sampleBoundShare.shareId ≠ boundShare.shareId ∨
      sampleBoundShare.saltHex ≠ boundShare.saltHex) : AcceptedUnwrapped boundShare where
  collisionFree := hmacCollisionFree_sample hlike
  ideal := idealDecryption_sample hlike
  differs := by
    intro tokens rawShareBytes wrapped h
    rw [(produces_sample h).1, (produces_sample h).2]
    exact hdiffers
  unwraps := unwrap_likeSample hlike

/-- One record has another name, the other one a zero behind its salt. -/
theorem relabelled_share_accepted :
    AcceptedUnwrapped relabelledShare ∧ AcceptedUnwrapped paddedShare :=
  ⟨acceptedUnwrapped_of_likeSample likeSample_relabelled (Or.inl (by decide)),
    acceptedUnwrapped_of_likeSample likeSample_padded (Or.inr (by decide))⟩

end BioFire.SessionGuard
