import BioFire.PolicyApprovals
import BioFire.Separators

/-!
# Delegation tokens (`src/lib/governance/governance_engine.ts`)

`createDelegation` and `verifyDelegation`. Numbers of a token are arbitrary, and a text
may hold any code units. `publicKeyOf` is the public half of an Ed25519 key.

* `tokenText_inj`: what the signed text fixes, and where it may be cut;
* `produced_iff`: which accepted tokens were produced;
* `delegations_tamper_proof_iff`: all of them only when no delegation is running;
* `delegator_recognised_iff`: of the holders of a role only the first one is recognised.
-/

namespace BioFire.Governance

open Separators

structure DelegationToken where
  tokenId : JSString
  delegatorRole : GovernanceRole
  delegateePublicKey : JSString
  delegatedRoles : List GovernanceRole
  notBefore : JSNumber
  notAfter : JSNumber
  maxTransactions : JSNumber
  maxAmountUSD : JSNumber
  signature : JSString
  deriving DecidableEq

/-- The text that the delegator signs. -/
def tokenText (token : DelegationToken) : JSString :=
  token.tokenId ++ js ":" ++ token.delegatorRole.text ++ js ":" ++ token.delegateePublicKey ++
    js ":" ++ numberString token.notAfter ++ js ":" ++ numberString token.maxTransactions ++
    js ":" ++ numberString token.maxAmountUSD

def tokenData (token : DelegationToken) : Bytes := textEncode (tokenText token)

/-- The arguments of `createDelegation`, with the readings of the clock. -/
structure DelegationCall where
  delegatorRole : GovernanceRole
  delegatorPrivateKey : SecureBuffer
  delegateePublicKey : JSString
  delegatedRoles : List GovernanceRole
  notAfter : JSNumber
  maxTransactions : JSNumber
  maxAmountUSD : JSNumber
  clock : ℕ → ℤ

/-- `new Date(t).toISOString()` does not throw. -/
def isDate : JSNumber → Bool
  | .finite t => |t| ≤ 8640000000000000
  | _ => false

variable (sha256 : Bytes → Digest) (ed25519Sign : Bytes → Bytes → Except JSError Bytes)

def DelegationCall.tokenId (call : DelegationCall) : JSString :=
  js "0x" ++ (bytesToHex (sha256 (textEncode (call.delegatorRole.text ++ js ":" ++
    call.delegateePublicKey ++ js ":" ++ bigintString (call.clock 0)))).1).take 32

/-- The token in front of its signature. -/
def DelegationCall.unsigned (call : DelegationCall) : DelegationToken where
  tokenId := call.tokenId sha256
  delegatorRole := call.delegatorRole
  delegateePublicKey := call.delegateePublicKey
  delegatedRoles := call.delegatedRoles
  notBefore := .ofInt (call.clock 1)
  notAfter := call.notAfter
  maxTransactions := call.maxTransactions
  maxAmountUSD := call.maxAmountUSD
  signature := []

/-- `createDelegation`. The log line throws for a `notAfter` that is no date, when the
token is stored already. -/
def createDelegation (delegations : InsertionMap JSString DelegationToken)
    (call : DelegationCall) :
    InsertionMap JSString DelegationToken × Except JSError DelegationToken :=
  match do ed25519Sign (tokenData (call.unsigned sha256)) (← call.delegatorPrivateKey.bytes) with
  | .error e => (delegations, .error e)
  | .ok signature =>
    let token := { call.unsigned sha256 with signature := js "0x" ++ bytesToHex signature }
    (delegations.set token.tokenId token,
      if isDate call.notAfter then .ok token
      else .error ⟨.RangeError, js "Invalid time value"⟩)

structure DelegationCheck where
  valid : Bool
  reason : Option JSString

/-- `Array.from(this.roleIdentities.values()).find(r => r.role === role)` -/
def firstHolder (state : GovernanceState) (role : GovernanceRole) : Option RoleIdentity :=
  state.roleIdentities.values.find? fun identity => identity.role = role

def verifyDelegation (oracles : GovernanceOracles) (state : GovernanceState)
    (token : DelegationToken) (clock : ℕ → ℤ) : DelegationCheck :=
  if token.notAfter.lt (.ofInt (clock 0)) then ⟨false, some (js "Delegation expired")⟩
  else if (JSNumber.ofInt (clock 1)).lt token.notBefore then
    ⟨false, some (js "Delegation not yet active")⟩
  else
    match firstHolder state token.delegatorRole with
    | none => ⟨false, some (js "Delegator role not registered")⟩
    | some identity =>
      match ed25519Check oracles identity.ed25519PublicKey (tokenData token) token.signature with
      | .ok true => ⟨true, none⟩
      | .ok false => ⟨false, some (js "Invalid delegation signature")⟩
      | .error _ => ⟨false, some (js "Signature verification failed")⟩

variable {sha256 ed25519Sign} {oracles : GovernanceOracles}

theorem verifyDelegation_valid_iff {state : GovernanceState} {token : DelegationToken}
    {clock : ℕ → ℤ} : (verifyDelegation oracles state token clock).valid = true ↔
      token.notAfter.lt (.ofInt (clock 0)) = false ∧
        (JSNumber.ofInt (clock 1)).lt token.notBefore = false ∧
        ∃ identity, firstHolder state token.delegatorRole = some identity ∧
          ed25519Check oracles identity.ed25519PublicKey (tokenData token) token.signature =
            .ok true := by
  rw [verifyDelegation]
  split
  next hexpired => simp [hexpired]
  next hrunning =>
    split
    next hearly => simp [hearly]
    next hactive =>
      rw [Bool.not_eq_true] at hrunning hactive
      cases firstHolder state token.delegatorRole with
      | none => simp
      | some identity =>
        simp only [hrunning, hactive, Option.some.injEq, exists_eq_left', true_and]
        split
        next hcheck => simp [hcheck]
        next hcheck => simp [hcheck]
        next hcheck => simp [hcheck]

/-! ## The signed text -/

theorem colon_not_mem_role (role : GovernanceRole) : 58 ∉ role.text := by
  cases role <;> decide

theorem colon_not_mem_tokenId (call : DelegationCall) : 58 ∉ call.tokenId sha256 := by
  intro hcolon
  rw [DelegationCall.tokenId, List.mem_append] at hcolon
  rcases hcolon with hcolon | hcolon
  · exact absurd hcolon (by decide)
  · have hhex : ∀ i : Fin 16, hexDigit i ≠ 58 := by decide
    obtain ⟨i, hdigit⟩ := exists_hexDigit_of_mem (List.mem_of_mem_take hcolon)
    exact hhex i hdigit.symm

/-- **The signed text** fixes six fields when the ids have no colon. -/
theorem tokenText_inj {token token' : DelegationToken} (hid : 58 ∉ token.tokenId)
    (hid' : 58 ∉ token'.tokenId) (h : tokenText token = tokenText token') :
    token.tokenId = token'.tokenId ∧ token.delegatorRole = token'.delegatorRole ∧
      token.delegateePublicKey = token'.delegateePublicKey ∧ token.notAfter = token'.notAfter ∧
      token.maxTransactions = token'.maxTransactions ∧
      token.maxAmountUSD = token'.maxAmountUSD := by
  rw [tokenText, tokenText] at h
  simp only [append_colon] at h
  obtain ⟨h, hamount⟩ := append_cons_inj_last (colon_not_mem_numberString _)
    (colon_not_mem_numberString _) h
  obtain ⟨h, htransactions⟩ := append_cons_inj_last (colon_not_mem_numberString _)
    (colon_not_mem_numberString _) h
  obtain ⟨h, hafter⟩ := append_cons_inj_last (colon_not_mem_numberString _)
    (colon_not_mem_numberString _) h
  rw [List.append_assoc, List.append_assoc, List.cons_append, List.cons_append] at h
  obtain ⟨hid, h⟩ := append_cons_inj hid hid' h
  obtain ⟨hrole, hkey⟩ := append_cons_inj (colon_not_mem_role _) (colon_not_mem_role _) h
  exact ⟨hid, GovernanceRole.text_injective hrole, hkey, numberString_injective hafter,
    numberString_injective htransactions, numberString_injective hamount⟩

theorem notAfter_of_tokenData {token token' : DelegationToken}
    (h : tokenData token = tokenData token') : token.notAfter = token'.notAfter := by
  have hlast : ∀ {a a' : JSString} {x x' : JSNumber},
      textEncode (a ++ js ":" ++ numberString x) = textEncode (a' ++ js ":" ++ numberString x') →
        textEncode a = textEncode a' ∧ numberString x = numberString x' := by
    intro a a' x x' hbytes
    rw [List.append_assoc, List.append_assoc] at hbytes
    exact textEncode_last_inj (by decide) (ascii_numberString x) (ascii_numberString x')
      (colon_not_mem_numberString x) (colon_not_mem_numberString x') hbytes
  rw [tokenData, tokenData, tokenText, tokenText] at h
  obtain ⟨htransactions, -⟩ := hlast h
  obtain ⟨hstart, -⟩ := hlast htransactions
  obtain ⟨-, hafter⟩ := hlast hstart
  exact numberString_injective hafter

/-! ## What was produced -/

/-- A call that returned `made`. -/
def Issued (sha256 : Bytes → Digest) (ed25519Sign : Bytes → Bytes → Except JSError Bytes)
    (call : DelegationCall) (made : DelegationToken) : Prop :=
  ∃ delegations, (createDelegation sha256 ed25519Sign delegations call).2 = .ok made

theorem issued_iff {call : DelegationCall} {made : DelegationToken} :
    Issued sha256 ed25519Sign call made ↔ isDate call.notAfter = true ∧
      ∃ key signature, call.delegatorPrivateKey.bytes = .ok key ∧
        ed25519Sign (tokenData (call.unsigned sha256)) key = .ok signature ∧
        made = { call.unsigned sha256 with signature := js "0x" ++ bytesToHex signature } := by
  rw [Issued]
  simp only [createDelegation]
  cases call.delegatorPrivateKey.bytes with
  | error e => simp [bind, Except.bind]
  | ok key =>
    cases hsign : ed25519Sign (tokenData (call.unsigned sha256)) key with
    | error e => simp [bind, Except.bind, hsign]
    | ok signature =>
      simp only [bind, Except.bind, hsign, Except.ok.injEq]
      cases hdate : isDate call.notAfter with
      | false => simp
      | true =>
        simp only [if_true, Except.ok.injEq, true_and]
        constructor
        · rintro ⟨-, rfl⟩
          exact ⟨key, signature, rfl, hsign, rfl⟩
        · rintro ⟨key', signature', rfl, hsign', rfl⟩
          obtain rfl := Except.ok.inj (hsign.symm.trans hsign')
          exact ⟨.empty, rfl⟩

/-- A call by the holder of a registered key of the role, among all calls, that returned
a token with a property. -/
def HolderIssued (sha256 : Bytes → Digest) (ed25519Sign : Bytes → Bytes → Except JSError Bytes)
    (publicKeyOf : Bytes → Bytes) (state : GovernanceState) (calls : List DelegationCall)
    (role : GovernanceRole) (P : DelegationToken → Prop) : Prop :=
  ∃ call ∈ calls, ∃ key, call.delegatorPrivateKey.bytes = .ok key ∧
    (∃ identity ∈ state.roleIdentities.values, identity.role = role ∧
      hexToBytes (removeHexPrefix identity.ed25519PublicKey) = .ok (publicKeyOf key)) ∧
    ∃ made, Issued sha256 ed25519Sign call made ∧ P made

/-- The eight fields beside the signature. -/
def SameFields (made token : DelegationToken) : Prop :=
  { made with signature := token.signature } = token

/-- A holder produced the token. -/
def Produced (sha256 : Bytes → Digest) (ed25519Sign : Bytes → Bytes → Except JSError Bytes)
    (publicKeyOf : Bytes → Bytes) (state : GovernanceState) (calls : List DelegationCall)
    (token : DelegationToken) : Prop :=
  HolderIssued sha256 ed25519Sign publicKeyOf state calls token.delegatorRole
    fun made => SameFields made token

theorem colon_not_mem_of_issued {call : DelegationCall} {made : DelegationToken}
    (h : Issued sha256 ed25519Sign call made) : 58 ∉ made.tokenId := by
  obtain ⟨-, key, signature, -, -, rfl⟩ := issued_iff.mp h
  exact colon_not_mem_tokenId call

/-- **One token.** It was produced exactly when its text was signed, its id has no colon,
and the two fields outside the text are those of the delegation. -/
theorem produced_iff {publicKeyOf : Bytes → Bytes} {state : GovernanceState}
    {calls : List DelegationCall} {token : DelegationToken} :
    Produced sha256 ed25519Sign publicKeyOf state calls token ↔ 58 ∉ token.tokenId ∧
      HolderIssued sha256 ed25519Sign publicKeyOf state calls token.delegatorRole fun made =>
        tokenText made = tokenText token ∧ made.delegatedRoles = token.delegatedRoles ∧
          made.notBefore = token.notBefore := by
  constructor
  · rintro ⟨call, hcall, key, hkey, hidentity, made, hissued, hsame⟩
    have hcolon := colon_not_mem_of_issued hissued
    rw [← hsame]
    exact ⟨hcolon, call, hcall, key, hkey, by rwa [← hsame] at hidentity, made, hissued, rfl, rfl,
      rfl⟩
  · rintro ⟨hcolon, call, hcall, key, hkey, hidentity, made, hissued, htext, hroles, hbefore⟩
    obtain ⟨hid, hrole, hdelegatee, hafter, htransactions, hamount⟩ :=
      tokenText_inj (colon_not_mem_of_issued hissued) hcolon htext
    refine ⟨call, hcall, key, hkey, hidentity, made, hissued, ?_⟩
    change { made with signature := token.signature } = token
    rw [hid, hrole, hdelegatee, hroles, hbefore, hafter, htransactions, hamount]

/-! ## All tokens -/

/-- A valid signature of a delegation text was made by a call that returned. -/
def DelegationsUnforgeable (oracles : GovernanceOracles)
    (ed25519Sign : Bytes → Bytes → Except JSError Bytes) (publicKeyOf : Bytes → Bytes)
    (calls : List DelegationCall) : Prop :=
  ∀ sig pub token, oracles.ed25519Verify sig (tokenData token) pub = .ok true →
    ∃ call ∈ calls, ∃ key made, call.delegatorPrivateKey.bytes = .ok key ∧
      Issued oracles.sha256 ed25519Sign call made ∧ publicKeyOf key = pub ∧
      tokenData made = tokenData token

/-- A delegation is running: signed with the key of the first registered holder of a role
that its text reads as, and not past its `notAfter`. -/
def Running (oracles : GovernanceOracles) (ed25519Sign : Bytes → Bytes → Except JSError Bytes)
    (publicKeyOf : Bytes → Bytes) (state : GovernanceState) (now : ℤ) (call : DelegationCall) :
    Prop :=
  ∃ key made token identity, call.delegatorPrivateKey.bytes = .ok key ∧
    Issued oracles.sha256 ed25519Sign call made ∧ tokenData token = tokenData made ∧
    firstHolder state token.delegatorRole = some identity ∧
    hexToBytes (removeHexPrefix identity.ed25519PublicKey) = .ok (publicKeyOf key) ∧
    call.notAfter.lt (.ofInt now) = false

/-- **Every running delegation can be widened.** The accepted tokens were all produced
exactly when no delegation is running. -/
theorem delegations_tamper_proof_iff (oracles : GovernanceOracles)
    (ed25519Sign : Bytes → Bytes → Except JSError Bytes) (publicKeyOf : Bytes → Bytes)
    (hcorrect : ∀ message key sig, ed25519Sign message key = .ok sig →
      oracles.ed25519Verify sig message (publicKeyOf key) = .ok true)
    (calls : List DelegationCall)
    (hunforgeable : DelegationsUnforgeable oracles ed25519Sign publicKeyOf calls)
    (state : GovernanceState) (clock : ℕ → ℤ) :
    (∀ token, (verifyDelegation oracles state token clock).valid = true →
      Produced oracles.sha256 ed25519Sign publicKeyOf state calls token) ↔
    ∀ call ∈ calls, ¬Running oracles ed25519Sign publicKeyOf state (clock 0) call := by
  constructor
  · rintro h call hcall ⟨key, made, token, identity, hkey, hissued, hdata, hfirst, hpub, hafter⟩
    obtain ⟨-, key', signature, hkey', hsign, hmade⟩ := issued_iff.mp hissued
    obtain rfl := Except.ok.inj (hkey.symm.trans hkey')
    have hunsigned : tokenData (call.unsigned oracles.sha256) = tokenData token := by
      rw [hdata, hmade]
      rfl
    have hinfinite : Infinite (List GovernanceRole) :=
      haveI : Nonempty GovernanceRole := ⟨.ADMIN⟩
      inferInstance
    obtain ⟨roles, hroles⟩ :=
      ((calls.map DelegationCall.delegatedRoles).finite_toSet).infinite_compl.nonempty
    let wide : DelegationToken := { token with
      delegatedRoles := roles
      notBefore := .ofInt (clock 1)
      signature := js "0x" ++ bytesToHex signature }
    have hwide : tokenData wide = tokenData token := rfl
    have hvalid : (verifyDelegation oracles state wide clock).valid = true := by
      refine verifyDelegation_valid_iff.mpr ⟨?_, by simp [wide, JSNumber.ofInt], identity, hfirst, ?_⟩
      · have hsame : wide.notAfter = call.notAfter := by
          rw [notAfter_of_tokenData (hwide.trans hunsigned.symm)]
          rfl
        rw [hsame, hafter]
      · rw [ed25519Check, hpub, hwide, ← hunsigned]
        simp only [wide, removeHexPrefix_append, hexToBytes_bytesToHex, bind, Except.bind]
        exact hcorrect _ _ _ hsign
    obtain ⟨call', hcall', -, -, -, made', hissued', hsame⟩ := h wide hvalid
    obtain ⟨-, key', signature', -, -, rfl⟩ := issued_iff.mp hissued'
    have hdelegated : call'.delegatedRoles = roles := congrArg DelegationToken.delegatedRoles hsame
    exact hroles (List.mem_map.mpr ⟨call', hcall', hdelegated⟩)
  · intro h token hvalid
    obtain ⟨hafter, -, identity, hfirst, hcheck⟩ := verifyDelegation_valid_iff.mp hvalid
    obtain ⟨pub, hpub, hcheck⟩ := bind_eq_ok hcheck
    obtain ⟨sig, -, hverify⟩ := bind_eq_ok hcheck
    obtain ⟨call, hcall, key, made, hkey, hissued, rfl, hdata⟩ := hunforgeable sig pub token hverify
    refine absurd ⟨key, made, token, identity, hkey, hissued, hdata.symm, hfirst, hpub, ?_⟩
      (h call hcall)
    obtain ⟨-, key, signature, -, -, rfl⟩ := issued_iff.mp hissued
    have hsame : call.notAfter = token.notAfter := notAfter_of_tokenData hdata
    rw [hsame, hafter]

/-! ## Several holders of a role -/

/-- A holder of the role is registered with the key. -/
def RegisteredKey (state : GovernanceState) (role : GovernanceRole) (pub : Bytes) : Prop :=
  ∃ identity ∈ state.roleIdentities.values, identity.role = role ∧
    hexToBytes (removeHexPrefix identity.ed25519PublicKey) = .ok pub

/-- The times of a token. -/
def DelegationToken.ActiveAt (token : DelegationToken) (now : ℤ) : Prop :=
  (JSNumber.ofInt now).lt token.notBefore = false ∧ token.notAfter.lt (.ofInt now) = false

theorem RegisteredKey.firstHolder {state : GovernanceState} {role : GovernanceRole} {pub : Bytes}
    (h : RegisteredKey state role pub) : ∃ first, firstHolder state role = some first := by
  obtain ⟨identity, hmem, hrole, -⟩ := h
  refine Option.isSome_iff_exists.mp (List.find?_isSome.mpr ⟨identity, hmem, ?_⟩)
  exact decide_eq_true hrole

/-- **Several holders.** While a token is active, its delegator is recognised exactly when the
first holder of the role in the registry has the delegator's key. -/
theorem delegator_recognised_iff (oracles : GovernanceOracles)
    (ed25519Sign : Bytes → Bytes → Except JSError Bytes) (publicKeyOf : Bytes → Bytes)
    (hed25519 : ∀ message key sig pub, ed25519Sign message key = .ok sig →
      (oracles.ed25519Verify sig message pub = .ok true ↔ pub = publicKeyOf key))
    (state : GovernanceState) (call : DelegationCall) (key : Bytes) (token : DelegationToken)
    (hkey : call.delegatorPrivateKey.bytes = .ok key)
    (hholder : RegisteredKey state call.delegatorRole (publicKeyOf key))
    (hissued : Issued oracles.sha256 ed25519Sign call token) (clock : ℕ → ℤ)
    (hactive : ∀ k, token.ActiveAt (clock k)) :
    (verifyDelegation oracles state token clock).valid = true ↔
      ∀ first, firstHolder state call.delegatorRole = some first →
        hexToBytes (removeHexPrefix first.ed25519PublicKey) = .ok (publicKeyOf key) := by
  obtain ⟨-, key', signature, hkey', hsign, htoken⟩ := issued_iff.mp hissued
  obtain rfl := Except.ok.inj (hkey.symm.trans hkey')
  obtain ⟨first, hfirst⟩ := hholder.firstHolder
  have hrole : token.delegatorRole = call.delegatorRole := by rw [htoken]; rfl
  have hdata : tokenData token = tokenData (call.unsigned oracles.sha256) := by rw [htoken]; rfl
  have hsignature : hexToBytes (removeHexPrefix token.signature) = .ok signature := by
    rw [htoken, removeHexPrefix_append, hexToBytes_bytesToHex]
  have hcheck : ed25519Check oracles first.ed25519PublicKey (tokenData token) token.signature =
      .ok true ↔ hexToBytes (removeHexPrefix first.ed25519PublicKey) = .ok (publicKeyOf key) := by
    rw [ed25519Check, hsignature, hdata]
    cases hexToBytes (removeHexPrefix first.ed25519PublicKey) with
    | error e => simp [bind, Except.bind]
    | ok pub =>
      simp only [bind, Except.bind, Except.ok.injEq]
      exact hed25519 _ _ _ pub hsign
  rw [verifyDelegation_valid_iff, hrole]
  simp only [(hactive 0).2, (hactive 1).1, true_and, hfirst, Option.some.injEq, exists_eq_left',
    forall_eq', hcheck]

/-! ## An auditor's token -/

/-- SHA-256 of `ADMIN:0x04:1767225600000`. -/
def delegationDigest : Digest :=
  ⟨[0x37, 0x34, 0x35, 0xf9, 0x07, 0x4c, 0x3e, 0x3f, 0x9f, 0x86, 0x32,
    0xea, 0xe1, 0x31, 0x31, 0x41, 0x78, 0xfd, 0x63, 0x79, 0xa7, 0x8e,
    0xa5, 0xa4, 0x40, 0xd5, 0xf5, 0xa5, 0x4f, 0x2a, 0xb7, 0xbf], rfl⟩

/-- The administrator delegates the auditor's role for a day. -/
def auditorCall : DelegationCall where
  delegatorRole := .ADMIN
  delegatorPrivateKey := .ofBytes (List.replicate 32 1)
  delegateePublicKey := js "0x04"
  delegatedRoles := [.AUDITOR]
  notAfter := .finite 1767312000000
  maxTransactions := .finite 10
  maxAmountUSD := .finite 5000
  clock := newYear

def delegationText : JSString :=
  js "0x373435f9074c3e3f9f8632eae1313141:ADMIN:0x04:1767312000000:10:5000"

def delegationSignature : Bytes :=
  bytesOf 32 0x05fa3a14d6bac3f93dbd3fb30643ca103b89a498576d43f595d4ed23c1bb4e89 ++
    bytesOf 32 0x5467563bc611648e39d8296b22abc7b292761f7c17916878f11c41cc75ddc20e

def delegationOracles : GovernanceOracles := { holderOracles with
  sha256 _ := delegationDigest
  ed25519Verify sig message pub := .ok
    (sig = delegationSignature && message = textEncode delegationText && pub = adminKey) }

def delegationSign (message key : Bytes) : Except JSError Bytes :=
  if key = List.replicate 32 1 ∧ message = textEncode delegationText then .ok delegationSignature
  else .error externalError

def adminPublicKey (key : Bytes) : Bytes := if key = List.replicate 32 1 then adminKey else []

theorem delegationSign_correct (message key sig : Bytes)
    (h : delegationSign message key = .ok sig) :
    delegationOracles.ed25519Verify sig message (adminPublicKey key) = .ok true := by
  rw [delegationSign] at h
  split at h
  next hsigned =>
    obtain rfl := Except.ok.inj h
    simp [delegationOracles, hsigned.1, hsigned.2, adminPublicKey]
  · cases h

theorem tokenData_auditorCall :
    tokenData (auditorCall.unsigned fun _ => delegationDigest) = textEncode delegationText := by
  decide +kernel

def auditorToken : DelegationToken :=
  { auditorCall.unsigned fun _ => delegationDigest with
    signature := js "0x" ++ bytesToHex delegationSignature }

theorem issued_auditorToken :
    Issued delegationOracles.sha256 delegationSign auditorCall auditorToken := by
  refine issued_iff.mpr ⟨by decide, List.replicate 32 1, delegationSignature, rfl, ?_, rfl⟩
  rw [delegationSign, if_pos ⟨rfl, tokenData_auditorCall⟩]

theorem unforgeable_auditorCall :
    DelegationsUnforgeable delegationOracles delegationSign adminPublicKey [auditorCall] := by
  intro sig pub token h
  have hmatch := Except.ok.inj h
  simp only [Bool.and_eq_true, decide_eq_true_eq] at hmatch
  refine ⟨auditorCall, List.mem_singleton_self _, List.replicate 32 1, auditorToken, rfl,
    issued_auditorToken, ?_, ?_⟩
  · rw [hmatch.2, adminPublicKey, if_pos rfl]
  · rw [hmatch.1.2]
    exact tokenData_auditorCall

/-- The auditor's token as one for administrators and treasurers. -/
def widenedToken : DelegationToken := { auditorToken with delegatedRoles := [.ADMIN, .TREASURY] }

theorem widened_token_accepted :
    (∀ message key sig, delegationSign message key = .ok sig →
      delegationOracles.ed25519Verify sig message (adminPublicKey key) = .ok true) ∧
    DelegationsUnforgeable delegationOracles delegationSign adminPublicKey [auditorCall] ∧
    (verifyDelegation delegationOracles threeHolders widenedToken newYear).valid = true ∧
    ¬Produced delegationOracles.sha256 delegationSign adminPublicKey threeHolders [auditorCall]
      widenedToken := by
  refine ⟨delegationSign_correct, unforgeable_auditorCall, by decide +kernel, ?_⟩
  rintro ⟨call, hcall, -, -, -, made, hissued, hsame⟩
  obtain rfl := List.mem_singleton.mp hcall
  obtain ⟨-, key, signature, -, -, rfl⟩ := issued_iff.mp hissued
  have hroles : [GovernanceRole.AUDITOR] = [.ADMIN, .TREASURY] :=
    congrArg DelegationToken.delegatedRoles hsame
  exact absurd hroles (by decide)

/-- A day later nothing is accepted. -/
theorem delegations_tamper_proof_expired :
    (∀ call ∈ [auditorCall], ¬Running delegationOracles delegationSign adminPublicKey threeHolders
      1767312000001 call) ∧
    ∀ token,
      (verifyDelegation delegationOracles threeHolders token fun _ => 1767312000001).valid = true →
      Produced delegationOracles.sha256 delegationSign adminPublicKey threeHolders [auditorCall]
        token := by
  have hover : ∀ call ∈ [auditorCall], ¬Running delegationOracles delegationSign adminPublicKey
      threeHolders 1767312000001 call := by
    rintro call hcall ⟨-, -, -, -, -, -, -, -, -, hafter⟩
    obtain rfl := List.mem_singleton.mp hcall
    exact absurd hafter (by decide)
  exact ⟨hover, (delegations_tamper_proof_iff delegationOracles delegationSign adminPublicKey
    delegationSign_correct [auditorCall] unforgeable_auditorCall threeHolders
    fun _ => 1767312000001).mpr hover⟩

/-- Two administrators, in the order of their registration. -/
def twoAdmins (key key' : JSString) : GovernanceState :=
  let state := (registerRoleIdentity (newEngine .empty) .ADMIN key (js "m/0") []).1
  (registerRoleIdentity state .ADMIN key' (js "m/1") []).1

theorem delegationSign_exact (message key sig pub : Bytes)
    (h : delegationSign message key = .ok sig) :
    delegationOracles.ed25519Verify sig message pub = .ok true ↔ pub = adminPublicKey key := by
  rw [delegationSign] at h
  split at h
  next hsigned =>
    obtain rfl := Except.ok.inj h
    simp [delegationOracles, hsigned.1, hsigned.2, adminPublicKey]
  · cases h

theorem registered_first {key : Bytes} {key' : JSString} (h : hexText key ≠ key') :
    RegisteredKey (twoAdmins (hexText key) key') .ADMIN key := by
  refine ⟨⟨.ADMIN, hexText key, [], js "m/0", none, none⟩, ?_, rfl, hexToBytes_hexText key⟩
  refine List.mem_map.mpr ⟨(hexText key, _), InsertionMap.mem_entries_set.mpr (Or.inr ⟨?_, h⟩), rfl⟩
  exact InsertionMap.mem_entries_set.mpr (Or.inl rfl)

theorem registered_second (key : JSString) (key' : Bytes) :
    RegisteredKey (twoAdmins key (hexText key')) .ADMIN key' :=
  ⟨⟨.ADMIN, hexText key', [], js "m/1", none, none⟩,
    List.mem_map.mpr ⟨(hexText key', _), InsertionMap.mem_entries_set.mpr (Or.inl rfl), rfl⟩, rfl,
    hexToBytes_hexText key'⟩

theorem active_auditorToken (k : ℕ) : auditorToken.ActiveAt (newYear k) := by
  have h : auditorToken.ActiveAt 1767225600000 := ⟨by decide, by decide⟩
  exact h

/-- The token of the second administrator, at the time of its creation. -/
theorem second_admin_not_recognised :
    (∀ message key sig pub, delegationSign message key = .ok sig →
        (delegationOracles.ed25519Verify sig message pub = .ok true ↔ pub = adminPublicKey key)) ∧
      auditorCall.delegatorPrivateKey.bytes = .ok (List.replicate 32 1) ∧
      RegisteredKey (twoAdmins (js "0x02") (hexText adminKey)) auditorCall.delegatorRole
        (adminPublicKey (List.replicate 32 1)) ∧
      Issued delegationOracles.sha256 delegationSign auditorCall auditorToken ∧
      (∀ k, auditorToken.ActiveAt (newYear k)) ∧
      (verifyDelegation delegationOracles (twoAdmins (js "0x02") (hexText adminKey)) auditorToken
        newYear).valid = false :=
  ⟨delegationSign_exact, rfl, registered_second (js "0x02") adminKey, issued_auditorToken,
    active_auditorToken, by decide +kernel⟩

/-- The token of the first administrator. -/
theorem first_admin_recognised :
    (verifyDelegation delegationOracles (twoAdmins (hexText adminKey) (js "0x02")) auditorToken
      newYear).valid = true := by
  refine (delegator_recognised_iff delegationOracles delegationSign adminPublicKey
    delegationSign_exact (twoAdmins (hexText adminKey) (js "0x02")) auditorCall
    (List.replicate 32 1) auditorToken rfl (registered_first (by decide)) issued_auditorToken
    newYear active_auditorToken).mpr fun first hfirst => ?_
  have hkey : (firstHolder (twoAdmins (hexText adminKey) (js "0x02")) .ADMIN).map
      RoleIdentity.ed25519PublicKey = some (hexText adminKey) := by
    with_unfolding_all rfl
  have hfound : firstHolder (twoAdmins (hexText adminKey) (js "0x02")) .ADMIN = some first := hfirst
  rw [hfound, Option.map_some, Option.some.injEq] at hkey
  rw [hkey]
  exact hexToBytes_hexText adminKey

end BioFire.Governance
