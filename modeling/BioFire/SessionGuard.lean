import BioFire.InsertionMap
import BioFire.JSValue
import BioFire.ModularArithmetic
import BioFire.Runs
import BioFire.TextEncoding

/-!
# Session-bound shares (`src/lib/security/session_guard.ts`)

The sessions of `SessionBoundKeyGuard`, and the shares wrapped under their tokens. The hash,
the HMAC and AES-GCM are parameters, random bytes are arguments. The wrapping functions
read the sessions before their first await only, so a call is one step.

* `cleanup_eq`: what a cleanup removes and returns;
* `active_session_issued`: an active session is the last one issued for its id;
* `keyText_inj`: the message under the HMAC determines the tokens;
* `unwrap_returns_only_bound`: what a successful unwrap shows.
-/

namespace BioFire.SessionGuard

open Runs

structure SessionBindingTokens where
  jwtToken : JSString
  cookieFingerprint : JSString
  sessionId : JSString
  expiresAt : ℤ
  deriving DecidableEq

structure EncryptedBoundShare where
  shareId : JSString
  wrappedDataHex : JSString
  ivHex : JSString
  saltHex : JSString
  authTagHex : JSString
  sessionBindingHash : JSString
  algorithm : JSString
  deriving DecidableEq

inductive KeyUsage where
  | encrypt | decrypt
  deriving DecidableEq, Repr

/-- The functions that the guard calls: hashes, and AES-GCM of `crypto.subtle`. -/
structure GuardOracles (Key : Type) where
  sha256 : Bytes → Digest
  /-- `hmac(sha256, key, message)` -/
  hmac : Bytes → Bytes → Digest
  importKey : Bytes → KeyUsage → Except JSError Key
  encrypt : Key → Bytes → Bytes → Except JSError Bytes
  decrypt : Key → Bytes → Bytes → Except JSError Bytes

structure GuardState where
  activeSessions : InsertionMap JSString SessionBindingTokens
  /-- All bindings so far, in the order of their creation. -/
  issued : List SessionBindingTokens

def newGuard : GuardState := ⟨.empty, []⟩

def ALGORITHM : JSString := js "AES-256-GCM"

def SESSION_TTL_MS : ℤ := 3600 * 1000

/-! ## Sessions -/

def newBinding (sessionId : JSString) (rawJwt rawCookie : Digest) (now : ℤ) :
    SessionBindingTokens where
  jwtToken := js "bf_jwt_" ++ bytesToHex rawJwt.1
  cookieFingerprint := js "bf_cookie_" ++ bytesToHex rawCookie.1
  sessionId
  expiresAt := now + SESSION_TTL_MS

def createSessionBinding (state : GuardState) (sessionId : JSString) (rawJwt rawCookie : Digest)
    (now : ℤ) : GuardState × SessionBindingTokens :=
  let binding := newBinding sessionId rawJwt rawCookie now
  ({ activeSessions := state.activeSessions.set sessionId binding
     issued := state.issued ++ [binding] }, binding)

def revokeSession (state : GuardState) (sessionId : JSString) : GuardState × Bool :=
  ({ state with activeSessions := state.activeSessions.delete sessionId },
    state.activeSessions.has sessionId)

def cleanupExpiredSessions (state : GuardState) (now : ℤ) : GuardState × ℕ :=
  let (activeSessions, removed) := state.activeSessions.entries.foldl
    (fun (sessions, removed) (id, session) =>
      if session.expiresAt < now then (sessions.delete id, removed + 1) else (sessions, removed))
    (state.activeSessions, 0)
  ({ state with activeSessions }, removed)

/-! ## Shares -/

variable {Key : Type} (oracles : GuardOracles Key)

/-- The message under the HMAC. -/
def keyText (jwtToken cookieFingerprint : JSString) : Bytes :=
  textEncode (jwtToken ++ js ":" ++ cookieFingerprint)

def deriveKey (jwtToken cookieFingerprint : JSString) (salt : Bytes) : Bytes :=
  (oracles.hmac salt (keyText jwtToken cookieFingerprint)).1

def bindingHash (sessionId jwtToken cookieFingerprint : JSString) : JSString :=
  js "0x" ++ bytesToHex (oracles.sha256 (textEncode
    (sessionId ++ js ":" ++ jwtToken ++ js ":" ++ cookieFingerprint))).1

/-- The encryption of a wrapped share. -/
def encryptShare (rawShareBytes : Bytes) (tokens : SessionBindingTokens) (salt iv : Bytes) :
    Except JSError Bytes := do
  let key := deriveKey oracles tokens.jwtToken tokens.cookieFingerprint salt
  let cryptoKey ← oracles.importKey key .encrypt
  oracles.encrypt cryptoKey iv rawShareBytes

def wrapShareWithSessionTokens (shareId : JSString) (rawShareBytes : Bytes)
    (tokens : SessionBindingTokens) (salt iv : Bytes) : Except JSError EncryptedBoundShare := do
  let combined ← encryptShare oracles rawShareBytes tokens salt iv
  let authTag := slice combined (-16) combined.length
  let encryptedData := slice combined 0 (-16)
  return {
    shareId
    wrappedDataHex := js "0x" ++ bytesToHex encryptedData
    ivHex := js "0x" ++ bytesToHex iv
    saltHex := js "0x" ++ bytesToHex salt
    authTagHex := js "0x" ++ bytesToHex authTag
    sessionBindingHash := bindingHash oracles tokens.sessionId tokens.jwtToken
      tokens.cookieFingerprint
    algorithm := ALGORITHM }

/-- `s.replace(/^0x/, '')` -/
def dropHexMark (s : JSString) : JSString := if (js "0x").isPrefixOf s then s.drop 2 else s

theorem dropHexMark_append (s : JSString) : dropHexMark (js "0x" ++ s) = s := by
  rw [dropHexMark, if_pos (List.isPrefixOf_iff_prefix.mpr (List.prefix_append _ _))]
  rfl

/-- What is decrypted: the salt, the vector, and the ciphertext with its tag. -/
def decryptionInput (boundShare : EncryptedBoundShare) :
    Except JSError (Bytes × Bytes × Bytes) := do
  let salt ← hexToBytes (dropHexMark boundShare.saltHex)
  let iv ← hexToBytes (dropHexMark boundShare.ivHex)
  let encryptedData ← hexToBytes (dropHexMark boundShare.wrappedDataHex)
  let authTag ← hexToBytes (dropHexMark boundShare.authTagHex)
  return (salt, iv, encryptedData ++ authTag)

def sessionExpired : JSError := plainError (js
  "UNAUTHORIZED_SESSION_EXPIRED: Active MPC session cookie/token expired or invalid.")

def sessionMismatch : JSError := plainError (js ("UNAUTHORIZED_SESSION_MISMATCH: Provided " ++
  "cookie or JWT token does not match active session binding."))

def sessionTampered : JSError := plainError (js
  "UNAUTHORIZED_SESSION_TAMPERED: Cookie / Token binding hash mismatch!")

def decryptionFailed : JSError := plainError (js ("UNAUTHORIZED_DECRYPTION_FAILED: Auth tag " ++
  "verification failed. Data tampered or wrong key."))

def unwrapShareWithSessionTokens (state : GuardState) (boundShare : EncryptedBoundShare)
    (jwtToken cookieFingerprint sessionId : JSString) (now : ℤ) : Except JSError Bytes :=
  match (state.activeSessions.get sessionId).filter fun s => !(s.expiresAt < now) with
  | none => .error sessionExpired
  | some activeSession =>
    if activeSession.jwtToken ≠ jwtToken ∨ activeSession.cookieFingerprint ≠ cookieFingerprint then
      .error sessionMismatch
    else if bindingHash oracles sessionId jwtToken cookieFingerprint ≠
        boundShare.sessionBindingHash then .error sessionTampered
    else do
      let (salt, iv, combined) ← decryptionInput boundShare
      let key := deriveKey oracles jwtToken cookieFingerprint salt
      let cryptoKey ← oracles.importKey key .decrypt
      match oracles.decrypt cryptoKey iv combined with
      | .ok plaintext => .ok plaintext
      | .error _ => .error decryptionFailed

/-- The calls. A share is wrapped under one of the issued bindings. -/
inductive GuardEvent where
  | createSessionBinding (sessionId : JSString) (rawJwt rawCookie : Digest) (now : ℤ)
  | wrapShareWithSessionTokens (binding : ℕ) (shareId : JSString) (rawShareBytes salt iv : Bytes)
  | unwrapShareWithSessionTokens (boundShare : EncryptedBoundShare)
      (jwtToken cookieFingerprint sessionId : JSString) (now : ℤ)
  | revokeSession (sessionId : JSString)
  | cleanupExpiredSessions (now : ℤ)

def step (state : GuardState) : GuardEvent → GuardState
  | .createSessionBinding sessionId rawJwt rawCookie now =>
    (createSessionBinding state sessionId rawJwt rawCookie now).1
  | .wrapShareWithSessionTokens _ _ _ _ _ => state
  | .unwrapShareWithSessionTokens _ _ _ _ _ => state
  | .revokeSession sessionId => (revokeSession state sessionId).1
  | .cleanupExpiredSessions now => (cleanupExpiredSessions state now).1

/-! ## Tokens -/

variable {oracles}

theorem bytesToHex_ascii (bs : Bytes) : ∀ c ∈ bytesToHex bs, c < 128 := by
  have hdigit : ∀ d : Fin 16, hexDigit d < 128 := by decide
  intro c hc
  obtain ⟨i, rfl⟩ := exists_hexDigit_of_mem hc
  exact hdigit i

/-- **The message under the HMAC determines the tokens.** -/
theorem keyText_inj {sessionId sessionId' : JSString} {rawJwt rawJwt' rawCookie rawCookie' : Digest}
    {now now' : ℤ}
    (h : keyText (newBinding sessionId rawJwt rawCookie now).jwtToken
        (newBinding sessionId rawJwt rawCookie now).cookieFingerprint =
      keyText (newBinding sessionId' rawJwt' rawCookie' now').jwtToken
        (newBinding sessionId' rawJwt' rawCookie' now').cookieFingerprint) :
    rawJwt = rawJwt' ∧ rawCookie = rawCookie' := by
  have hjwtMark : ∀ c ∈ js "bf_jwt_", c < 128 := ascii_of_all (by decide)
  have hcolon : ∀ c ∈ js ":", c < 128 := ascii_of_all (by decide)
  have hcookieMark : ∀ c ∈ js "bf_cookie_", c < 128 := ascii_of_all (by decide)
  have hascii : ∀ raw raw' : Digest, ∀ c ∈ js "bf_jwt_" ++ bytesToHex raw.1 ++ js ":" ++
      (js "bf_cookie_" ++ bytesToHex raw'.1), c < 128 := by
    intro raw raw'
    simp only [List.forall_mem_append]
    exact ⟨⟨⟨hjwtMark, bytesToHex_ascii _⟩, hcolon⟩, hcookieMark, bytesToHex_ascii _⟩
  have htext := textEncode_ascii_inj (hascii rawJwt rawCookie) (hascii rawJwt' rawCookie') h
  have hlength : (bytesToHex rawJwt.1).length = (bytesToHex rawJwt'.1).length := by
    rw [length_bytesToHex, length_bytesToHex, rawJwt.2, rawJwt'.2]
  simp only [List.append_assoc, List.append_cancel_left_eq] at htext
  obtain ⟨hjwt, hrest⟩ := List.append_inj htext hlength
  simp only [List.append_cancel_left_eq] at hrest
  exact ⟨Subtype.ext (bytesToHex_injective hjwt), Subtype.ext (bytesToHex_injective hrest)⟩

/-! ## Issued bindings -/

/-- The binding that an event issues. -/
def issuedBy : GuardEvent → Option SessionBindingTokens
  | .createSessionBinding sessionId rawJwt rawCookie now =>
    some (newBinding sessionId rawJwt rawCookie now)
  | _ => none

theorem issued_run (past : List GuardEvent) :
    (run step newGuard past).issued = past.filterMap issuedBy := by
  induction past using List.reverseRecOn with
  | nil => rfl
  | append_singleton past event ih =>
    rw [run_concat, List.filterMap_append, ← ih]
    cases event <;>
      simp [step, createSessionBinding, revokeSession, cleanupExpiredSessions, issuedBy]

theorem exists_newBinding {past : List GuardEvent} {binding : SessionBindingTokens}
    (h : binding ∈ (run step newGuard past).issued) :
    ∃ sessionId rawJwt rawCookie now, binding = newBinding sessionId rawJwt rawCookie now := by
  rw [issued_run, List.mem_filterMap] at h
  obtain ⟨event, -, hissued⟩ := h
  cases event with
  | createSessionBinding => exact ⟨_, _, _, _, (Option.some.inj hissued).symm⟩
  | _ => cases hissued

/-- The event issues another binding for the id, or revokes the session. -/
def GuardEvent.Supersedes (sessionId : JSString) : GuardEvent → Prop
  | .createSessionBinding sessionId' _ _ _ => sessionId' = sessionId
  | .revokeSession sessionId' => sessionId' = sessionId
  | _ => False

/-- The binding is the last one issued for the id, and the session was not revoked since. -/
def IssuedLast (past : List GuardEvent) (sessionId : JSString) (binding : SessionBindingTokens) :
    Prop :=
  ∃ before rawJwt rawCookie time after,
    past = before ++ .createSessionBinding sessionId rawJwt rawCookie time :: after ∧
    binding = newBinding sessionId rawJwt rawCookie time ∧
    ∀ event ∈ after, ¬ event.Supersedes sessionId

theorem IssuedLast.concat {past : List GuardEvent} {sessionId : JSString}
    {binding : SessionBindingTokens} (h : IssuedLast past sessionId binding) {event : GuardEvent}
    (hevent : ¬ event.Supersedes sessionId) : IssuedLast (past ++ [event]) sessionId binding := by
  obtain ⟨before, rawJwt, rawCookie, time, after, rfl, hbinding, hafter⟩ := h
  refine ⟨before, rawJwt, rawCookie, time, after ++ [event], by simp, hbinding, ?_⟩
  intro other hother
  rcases List.mem_append.mp hother with hmem | hlast
  · exact hafter other hmem
  · rw [List.mem_singleton.mp hlast]
    exact hevent

theorem IssuedLast.mem_issued {past : List GuardEvent} {sessionId : JSString}
    {binding : SessionBindingTokens} (h : IssuedLast past sessionId binding) :
    binding ∈ (run step newGuard past).issued := by
  obtain ⟨before, rawJwt, rawCookie, time, after, rfl, rfl, -⟩ := h
  rw [issued_run, List.mem_filterMap]
  exact ⟨.createSessionBinding sessionId rawJwt rawCookie time, by simp, rfl⟩

theorem IssuedLast.sessionId_eq {past : List GuardEvent} {sessionId : JSString}
    {binding : SessionBindingTokens} (h : IssuedLast past sessionId binding) :
    binding.sessionId = sessionId := by
  obtain ⟨before, rawJwt, rawCookie, time, after, -, rfl, -⟩ := h
  rfl

theorem cleanup_loop (now : ℤ) (l : List (JSString × SessionBindingTokens))
    (acc : InsertionMap JSString SessionBindingTokens × ℕ) :
    let swept := l.foldl (fun (sessions, removed) (id, session) =>
      if session.expiresAt < now then (sessions.delete id, removed + 1)
      else (sessions, removed)) acc
    (∀ sessionId, swept.1.get sessionId =
        if ∃ entry ∈ l, entry.1 = sessionId ∧ entry.2.expiresAt < now then none
        else acc.1.get sessionId) ∧
      swept.2 = acc.2 + (l.filter fun entry => entry.2.expiresAt < now).length := by
  induction l generalizing acc with
  | nil => simp
  | cons entry l ih =>
    obtain ⟨hget, hcount⟩ := ih (if entry.2.expiresAt < now then
      (acc.1.delete entry.1, acc.2 + 1) else acc)
    refine ⟨fun sessionId => ?_, ?_⟩
    · refine (hget sessionId).trans ?_
      by_cases hlater : ∃ entry ∈ l, entry.1 = sessionId ∧ entry.2.expiresAt < now
      · rw [if_pos hlater, if_pos (List.exists_mem_cons_of_exists hlater)]
      · rw [if_neg hlater]
        by_cases hexpired : entry.2.expiresAt < now
        · rw [if_pos hexpired, InsertionMap.get_delete]
          by_cases hid : sessionId = entry.1
          · rw [if_pos hid, if_pos ⟨entry, List.mem_cons_self, hid.symm, hexpired⟩]
          · rw [if_neg hid, if_neg]
            rintro ⟨entry', hmem, hid', hexpired'⟩
            rcases List.mem_cons.mp hmem with rfl | hmem
            · exact hid hid'.symm
            · exact hlater ⟨entry', hmem, hid', hexpired'⟩
        · rw [if_neg hexpired, if_neg]
          rintro ⟨entry', hmem, hid', hexpired'⟩
          rcases List.mem_cons.mp hmem with rfl | hmem
          · exact hexpired hexpired'
          · exact hlater ⟨entry', hmem, hid', hexpired'⟩
    · refine hcount.trans ?_
      by_cases hexpired : entry.2.expiresAt < now
      · simp [hexpired]
        omega
      · simp [hexpired]

/-- **One cleanup** removes the sessions that are expired, and returns their number. -/
theorem cleanup_eq (state : GuardState) (now : ℤ) :
    (∀ sessionId, (cleanupExpiredSessions state now).1.activeSessions.get sessionId =
        (state.activeSessions.get sessionId).filter fun s => !(s.expiresAt < now)) ∧
      (cleanupExpiredSessions state now).2 =
        (state.activeSessions.values.filter fun s => s.expiresAt < now).length := by
  obtain ⟨hget, hcount⟩ := cleanup_loop now state.activeSessions.entries
    (state.activeSessions, 0)
  refine ⟨fun sessionId => (hget sessionId).trans ?_, hcount.trans ?_⟩
  · cases hactive : state.activeSessions.get sessionId with
    | none => simp
    | some session =>
      have hentry : ∀ entry ∈ state.activeSessions.entries, entry.1 = sessionId →
          entry.2 = session := by
        rintro entry hmem rfl
        have hsome := InsertionMap.get_eq_some_iff.mpr hmem
        exact Option.some.inj (hsome.symm.trans hactive)
      have hmem := InsertionMap.get_eq_some_iff.mp hactive
      rw [Option.filter_some]
      by_cases hexpired : session.expiresAt < now
      · rw [if_pos ⟨_, hmem, rfl, hexpired⟩]
        simp [hexpired]
      · rw [if_neg, if_pos (by simpa using hexpired)]
        rintro ⟨entry, hmem, hid, hlt⟩
        rw [hentry entry hmem hid] at hlt
        exact hexpired hlt
  · rw [zero_add, InsertionMap.values, List.filter_map, List.length_map]
    rfl

theorem get_of_get_cleanup {state : GuardState} {now : ℤ} {sessionId : JSString}
    {binding : SessionBindingTokens}
    (h : (cleanupExpiredSessions state now).1.activeSessions.get sessionId = some binding) :
    state.activeSessions.get sessionId = some binding := by
  rw [(cleanup_eq state now).1] at h
  exact (Option.filter_eq_some_iff.mp h).1

/-- **Active sessions.** The session under an id is the last one issued for it. -/
theorem active_session_issued {past : List GuardEvent} {sessionId : JSString}
    {binding : SessionBindingTokens}
    (h : (run step newGuard past).activeSessions.get sessionId = some binding) :
    IssuedLast past sessionId binding := by
  induction past using List.reverseRecOn with
  | nil => cases h
  | append_singleton past event ih =>
    rw [run_concat] at h
    cases event with
    | createSessionBinding sessionId' rawJwt rawCookie now =>
      simp only [step, createSessionBinding, InsertionMap.get_set] at h
      split at h
      next heq =>
        subst heq
        exact ⟨past, rawJwt, rawCookie, now, [], by simp, (Option.some.inj h).symm, by simp⟩
      next hne => exact (ih h).concat (Ne.symm hne)
    | wrapShareWithSessionTokens => exact (ih h).concat id
    | unwrapShareWithSessionTokens => exact (ih h).concat id
    | revokeSession sessionId' =>
      simp only [step, revokeSession, InsertionMap.get_delete] at h
      split at h
      · cases h
      next hne => exact (ih h).concat (Ne.symm hne)
    | cleanupExpiredSessions now => exact (ih (get_of_get_cleanup h)).concat id

/-! ## What an unwrap shows -/

/-- The call computes the HMAC of the message under the salt. -/
def ComputesHmac (salt message : Bytes) (state : GuardState) : GuardEvent → Prop
  | .wrapShareWithSessionTokens index _ _ salt' _ =>
    salt' = salt ∧ ∃ tokens, state.issued[index]? = some tokens ∧
      message = keyText tokens.jwtToken tokens.cookieFingerprint
  | .unwrapShareWithSessionTokens boundShare jwtToken cookieFingerprint _ _ =>
    message = keyText jwtToken cookieFingerprint ∧
      ∃ iv combined, decryptionInput boundShare = .ok (salt, iv, combined)
  | _ => False

variable (oracles)

/-- No two messages under the HMAC in the run have one hash. -/
def HmacInjective (events : List GuardEvent) : Prop :=
  ∀ {salt message salt' message' : Bytes},
    Occurs step newGuard events (ComputesHmac salt message) →
    Occurs step newGuard events (ComputesHmac salt' message') →
    oracles.hmac salt message = oracles.hmac salt' message' → message = message'

/-- The call encrypts the plaintext under the key and the vector. -/
def Encrypts (key iv plaintext ciphertext : Bytes) (state : GuardState) (event : GuardEvent) :
    Prop :=
  ∃ index shareId salt tokens,
    event = .wrapShareWithSessionTokens index shareId plaintext salt iv ∧
    state.issued[index]? = some tokens ∧
    key = deriveKey oracles tokens.jwtToken tokens.cookieFingerprint salt ∧
    encryptShare oracles plaintext tokens salt iv = .ok ciphertext

/-- AES-GCM as an ideal cipher, for one decryption: what decrypts was encrypted before. -/
def IdealDecryption (past : List GuardEvent) (key iv combined : Bytes) : Prop :=
  ∀ {cryptoKey plaintext}, oracles.importKey key .decrypt = .ok cryptoKey →
    oracles.decrypt cryptoKey iv combined = .ok plaintext →
    Occurs step newGuard past (Encrypts oracles key iv plaintext combined)

/-- The call wraps the share under the binding. -/
def Wraps (binding : SessionBindingTokens) (rawShareBytes : Bytes) (state : GuardState)
    (event : GuardEvent) : Prop :=
  ∃ index shareId salt iv boundShare,
    event = .wrapShareWithSessionTokens index shareId rawShareBytes salt iv ∧
    state.issued[index]? = some binding ∧
    wrapShareWithSessionTokens oracles shareId rawShareBytes binding salt iv = .ok boundShare

variable {oracles}

theorem exists_boundShare {shareId : JSString} {rawShareBytes salt iv combined : Bytes}
    {tokens : SessionBindingTokens}
    (h : encryptShare oracles rawShareBytes tokens salt iv = .ok combined) :
    ∃ boundShare,
      wrapShareWithSessionTokens oracles shareId rawShareBytes tokens salt iv = .ok boundShare := by
  rw [wrapShareWithSessionTokens, h]
  exact ⟨_, rfl⟩

/-- A call that encrypts wraps a share, under the tokens behind the key. -/
theorem Encrypts.wraps {key iv plaintext ciphertext : Bytes} {state : GuardState}
    {event : GuardEvent} (h : Encrypts oracles key iv plaintext ciphertext state event) :
    ∃ salt tokens, key = deriveKey oracles tokens.jwtToken tokens.cookieFingerprint salt ∧
      ComputesHmac salt (keyText tokens.jwtToken tokens.cookieFingerprint) state event ∧
      Wraps oracles tokens plaintext state event := by
  obtain ⟨index, shareId, salt, tokens, rfl, hissued, hkey, hencrypt⟩ := h
  obtain ⟨boundShare, hwrap⟩ := exists_boundShare hencrypt
  exact ⟨salt, tokens, hkey, ⟨rfl, tokens, hissued, rfl⟩,
    index, shareId, salt, iv, boundShare, rfl, hissued, hwrap⟩

theorem issued_mono {past : List GuardEvent} {index : ℕ} {binding : SessionBindingTokens}
    (h : (run step newGuard past).issued[index]? = some binding) (rest : List GuardEvent) :
    binding ∈ (run step newGuard (past ++ rest)).issued := by
  rw [issued_run, List.filterMap_append, ← issued_run]
  exact List.mem_append_left _ (List.mem_of_getElem? h)

/-- **The checks of an unwrap.** The session is active and not expired, its tokens are the
ones presented, the record has their hash, and the ciphertext decrypts under their key. -/
theorem of_unwrap_ok {state : GuardState} {boundShare : EncryptedBoundShare}
    {jwtToken cookieFingerprint sessionId : JSString} {now : ℤ} {plaintext : Bytes}
    (h : unwrapShareWithSessionTokens oracles state boundShare jwtToken cookieFingerprint sessionId
      now = .ok plaintext) :
    ∃ binding, state.activeSessions.get sessionId = some binding ∧ now ≤ binding.expiresAt ∧
      binding.jwtToken = jwtToken ∧ binding.cookieFingerprint = cookieFingerprint ∧
      bindingHash oracles sessionId jwtToken cookieFingerprint = boundShare.sessionBindingHash ∧
      ∃ salt iv combined cryptoKey, decryptionInput boundShare = .ok (salt, iv, combined) ∧
        oracles.importKey (deriveKey oracles jwtToken cookieFingerprint salt) .decrypt =
          .ok cryptoKey ∧
        oracles.decrypt cryptoKey iv combined = .ok plaintext := by
  unfold unwrapShareWithSessionTokens at h
  split at h
  · cases h
  next binding hfilter =>
    obtain ⟨hget, hexpires⟩ := Option.filter_eq_some_iff.mp hfilter
    split at h
    · cases h
    next hmatch =>
      split at h
      · cases h
      next hhash =>
        obtain ⟨⟨salt, iv, combined⟩, hinput, h⟩ := bind_eq_ok h
        obtain ⟨cryptoKey, himport, h⟩ := bind_eq_ok h
        simp only [not_or, not_not] at hmatch hhash
        refine ⟨binding, hget, by simpa using hexpires, hmatch.1, hmatch.2, hhash, salt, iv,
          combined, cryptoKey, hinput, himport, ?_⟩
        split at h
        next hdecrypt =>
          rw [hdecrypt]
          exact h
        · cases h

/-- **Session-bound access.** What an unwrap returns was wrapped under the binding issued
last for the session, which is neither revoked nor expired, and whose tokens are presented. -/
theorem unwrap_returns_only_bound {past : List GuardEvent} {boundShare : EncryptedBoundShare}
    {jwtToken cookieFingerprint sessionId : JSString} {now : ℤ} {plaintext : Bytes}
    (htokens : ((run step newGuard past).issued.map
      fun binding => (binding.jwtToken, binding.cookieFingerprint)).Nodup)
    (hhmac : HmacInjective oracles
      (past ++ [.unwrapShareWithSessionTokens boundShare jwtToken cookieFingerprint sessionId now]))
    (haead : ∀ {salt iv combined}, decryptionInput boundShare = .ok (salt, iv, combined) →
      IdealDecryption oracles past (deriveKey oracles jwtToken cookieFingerprint salt) iv combined)
    (h : unwrapShareWithSessionTokens oracles (run step newGuard past) boundShare jwtToken
      cookieFingerprint sessionId now = .ok plaintext) :
    ∃ binding, IssuedLast past sessionId binding ∧ now ≤ binding.expiresAt ∧
      binding.jwtToken = jwtToken ∧ binding.cookieFingerprint = cookieFingerprint ∧
      binding.sessionId = sessionId ∧
      Occurs step newGuard past (Wraps oracles binding plaintext) := by
  obtain ⟨binding, hactive, hexpires, rfl, rfl, -, salt, iv, combined, cryptoKey, hinput,
    himport, hdecrypt⟩ := of_unwrap_ok h
  have hlast := active_session_issued hactive
  refine ⟨binding, hlast, hexpires, rfl, rfl, hlast.sessionId_eq, ?_⟩
  obtain ⟨before, event, after, rfl, hencrypts⟩ := haead hinput himport hdecrypt
  obtain ⟨salt', tokens, hkey, hcomputes, hwraps⟩ := hencrypts.wraps
  have htext : keyText binding.jwtToken binding.cookieFingerprint =
      keyText tokens.jwtToken tokens.cookieFingerprint := by
    apply hhmac (occurs_concat.mpr (Or.inr ⟨rfl, iv, combined, hinput⟩))
    · exact occurs_concat.mpr (Or.inl ⟨before, event, after, rfl, hcomputes⟩)
    · exact Subtype.ext hkey
  obtain ⟨index, -, -, -, -, -, hissued, -⟩ := id hwraps
  have htokensIssued := issued_mono hissued (event :: after)
  obtain ⟨_, rawJwt, rawCookie, _, rfl⟩ := exists_newBinding hlast.mem_issued
  obtain ⟨_, rawJwt', rawCookie', _, rfl⟩ := exists_newBinding htokensIssued
  obtain ⟨rfl, rfl⟩ := keyText_inj htext
  have heq := List.inj_on_of_nodup_map htokens hlast.mem_issued htokensIssued rfl
  rw [heq]
  exact ⟨before, event, after, rfl, hwraps⟩

def sampleBinding : SessionBindingTokens := newBinding (js "session") zeroDigest zeroDigest 0

def sampleSalt : Bytes := List.replicate 32 0

def sampleIv : Bytes := List.replicate 16 0

/-- The HMAC of the text of the tokens. -/
def sampleKey : Digest :=
  ⟨[0x09, 0x0f, 0xc9, 0xda, 0x71, 0xc1, 0x4e, 0xc4, 0x42, 0x8c, 0xad, 0x38, 0x10, 0x3c, 0x5e, 0x29,
    0x71, 0x14, 0xa0, 0x03, 0x3a, 0x1f, 0xfb, 0x7d, 0xc0, 0xfe, 0x72, 0x40, 0xed, 0xda, 0x72, 0xf5],
    rfl⟩

/-- The byte 7 under that key, with its tag. -/
def sampleCiphertext : Bytes :=
  [0xe5, 0xc5, 0x43, 0x65, 0x10, 0x09, 0x2c, 0x85, 0x9d, 0x2f, 0xad, 0xbc, 0xba, 0x6e, 0xef, 0xf6,
    0x13]

/-- The hash of `session` and the tokens. -/
def sampleBindingDigest : Digest :=
  ⟨[0x1a, 0xeb, 0xf7, 0x2c, 0x54, 0xed, 0xc3, 0xe9, 0x67, 0x42, 0x90, 0x72, 0x80, 0xc1, 0x90, 0x42,
    0xf4, 0x80, 0x1e, 0xb7, 0x81, 0x23, 0x75, 0x34, 0xc5, 0x2e, 0xd4, 0xee, 0x53, 0xad, 0x78, 0xbf],
    rfl⟩

/-- The functions of the guard, from some of their values. -/
def sampleOracles : GuardOracles (Bytes × KeyUsage) where
  sha256 bytes :=
    if bytes = textEncode (sampleBinding.sessionId ++ js ":" ++ sampleBinding.jwtToken ++ js ":" ++
      sampleBinding.cookieFingerprint) then sampleBindingDigest else zeroDigest
  hmac key message :=
    if key = sampleSalt ∧
      message = keyText sampleBinding.jwtToken sampleBinding.cookieFingerprint then sampleKey
    else zeroDigest
  importKey key usage := .ok (key, usage)
  encrypt key iv plaintext :=
    if key = (sampleKey.1, .encrypt) ∧ iv = sampleIv ∧ plaintext = [7] then .ok sampleCiphertext
    else .error (plainError (js "OperationError"))
  decrypt key iv ciphertext :=
    if key = (sampleKey.1, .decrypt) ∧ iv = sampleIv ∧ ciphertext = sampleCiphertext then .ok [7]
    else .error (plainError (js "OperationError"))

def sampleBoundShare : EncryptedBoundShare where
  shareId := js "share"
  wrappedDataHex := js "0xe5"
  ivHex := js "0x" ++ bytesToHex sampleIv
  saltHex := js "0x" ++ bytesToHex sampleSalt
  authTagHex := js "0xc5436510092c859d2fadbcba6eeff613"
  sessionBindingHash := js "0x" ++ bytesToHex sampleBindingDigest.1
  algorithm := ALGORITHM

/-- A session is bound, and a share wrapped under its tokens. -/
def samplePast : List GuardEvent :=
  [.createSessionBinding (js "session") zeroDigest zeroDigest 0,
    .wrapShareWithSessionTokens 0 (js "share") [7] sampleSalt sampleIv]

/-- The share is asked for with these tokens. -/
def sampleUnwrap : GuardEvent :=
  .unwrapShareWithSessionTokens sampleBoundShare sampleBinding.jwtToken
    sampleBinding.cookieFingerprint (js "session") 0

theorem decryptionInput_sample :
    decryptionInput sampleBoundShare = .ok (sampleSalt, sampleIv, sampleCiphertext) := by
  decide

/-- Every HMAC of the sample is over the text of the one pair of tokens. -/
theorem computesHmac_sample {salt message : Bytes}
    (h : Occurs step newGuard (samplePast ++ [sampleUnwrap]) (ComputesHmac salt message)) :
    message = keyText sampleBinding.jwtToken sampleBinding.cookieFingerprint := by
  simp only [samplePast, List.cons_append, List.nil_append, occurs_cons, not_occurs_nil,
    or_false] at h
  rcases h with hcreate | ⟨-, tokens, hissued, hmessage⟩ | ⟨hmessage, -⟩
  · exact hcreate.elim
  · obtain rfl : sampleBinding = tokens := Option.some.inj hissued
    exact hmessage
  · exact hmessage

theorem unwrap_returns_only_bound_sample :
    ∃ binding, IssuedLast samplePast (js "session") binding ∧ 0 ≤ binding.expiresAt ∧
      binding.jwtToken = sampleBinding.jwtToken ∧
      binding.cookieFingerprint = sampleBinding.cookieFingerprint ∧
      binding.sessionId = js "session" ∧
      Occurs step newGuard samplePast (Wraps sampleOracles binding [7]) := by
  have hunwrap : unwrapShareWithSessionTokens sampleOracles (run step newGuard samplePast)
      sampleBoundShare sampleBinding.jwtToken sampleBinding.cookieFingerprint (js "session") 0 =
        .ok [7] := by
    decide +kernel
  refine unwrap_returns_only_bound (by decide) ?_ ?_ hunwrap
  · intro salt message salt' message' h h' _
    rw [computesHmac_sample h, computesHmac_sample h']
  · intro salt iv combined hinput cryptoKey plaintext himport hdecrypt
    rw [decryptionInput_sample] at hinput
    cases hinput
    cases himport
    have hkey : deriveKey sampleOracles sampleBinding.jwtToken sampleBinding.cookieFingerprint
        sampleSalt = sampleKey.1 := by decide
    rw [hkey] at hdecrypt ⊢
    obtain rfl : [7] = plaintext := by
      simpa [sampleOracles] using hdecrypt
    refine occurs_cons.mpr (Or.inr (occurs_cons.mpr (Or.inl ?_)))
    exact ⟨0, js "share", sampleSalt, sampleBinding, rfl, rfl, hkey.symm, by decide⟩

end BioFire.SessionGuard
