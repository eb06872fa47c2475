import BioFire.MerkleRoot

/-!
# Approvals of a policy (`src/lib/governance/governance_engine.ts`)

`createPolicy` with its approvals. Ed25519 signing is a parameter, and the master key
is a buffer that the constructor fills.

* `createPolicy_ok_iff`: what a policy needs;
* `approvals_bind_policy_iff`: the approvals do not bind it;
* `approvals_clock_independent_iff`: they are for one reading of the clock.
-/

namespace BioFire.Governance

variable (oracles : GovernanceOracles) (ed25519Sign : Bytes → Bytes → Except JSError Bytes)

/-- The text that a holder of `role` approves. -/
def policyMessage (role : GovernanceRole) (now : ℤ) : Bytes :=
  textEncode (js "POLICY_CHANGE:" ++ bigintString now ++ js ":" ++ role.text)

/-- One pass of the loop: the clock is read for the message and for the expiry. -/
def policyApproval (state : GovernanceState) (role : GovernanceRole) (sig : JSString)
    (messageTime now : ℤ) : Bool :=
  (verifyRoleSignature oracles state role (policyMessage role messageTime) sig now).valid

/-- The approvals that a loop over `approverSignatures` counts. -/
def countApprovals (approval : GovernanceRole → JSString → ℤ → ℤ → Bool)
    (approverSignatures : InsertionMap GovernanceRole JSString) (clock : ℕ → ℤ) : ℕ :=
  approverSignatures.entries.zipIdx.countP fun ((role, sig), k) =>
    approval role sig (clock (2 * k)) (clock (2 * k + 1))

/-- `approvalCount` behind the loop of `createPolicy`. -/
def approvalCount (state : GovernanceState)
    (approverSignatures : InsertionMap GovernanceRole JSString) (clock : ℕ → ℤ) : ℕ :=
  countApprovals (policyApproval oracles state) approverSignatures clock

def policyIdOf (tiers : List ApprovalTier) (now : ℤ) : JSString :=
  js "0x" ++ (bytesToHex (oracles.sha256 (textEncode
    ((Json.array (tiers.map ApprovalTier.toJson)).stringify ++ bigintString now))).1).take 32

/-- `ed25519.sign(hexToBytes(policyId.replace('0x', '')), this.masterPolicyKey.bytes)` -/
def policySignature (masterPolicyKey : SecureBuffer) (policyId : JSString) :
    Except JSError Bytes := do
  let message ← hexToBytes (removeHexPrefix policyId)
  let key ← masterPolicyKey.bytes
  ed25519Sign message key

def createPolicy (masterPolicyKey : SecureBuffer) (state : GovernanceState)
    (approverSignatures : InsertionMap GovernanceRole JSString) (tiers : List ApprovalTier)
    (circuitBreakerRules : List CircuitBreakerRule) (clock : ℕ → ℤ) :
    GovernanceState × Except JSError GovernancePolicy :=
  let approvals := approvalCount oracles state approverSignatures clock
  if approvals < 3 then
    (state, .error (plainError (js "Policy creation requires 3-of-5 approvals, got " ++
      decimal approvals)))
  else
    let readings := 2 * approverSignatures.size
    let policyId := policyIdOf oracles tiers (clock readings)
    match computePolicyMerkleRoot oracles.sha256 tiers circuitBreakerRules with
    | .error e => (state, .error e)
    | .ok merkleRoot =>
      match policySignature ed25519Sign masterPolicyKey policyId with
      | .error e => (state, .error e)
      | .ok policySig =>
        let policy : GovernancePolicy := {
          policyId
          version := state.policies.size + 1
          tiers
          circuitBreakerRules
          signedBy := approverSignatures.values ++ [js "0x" ++ bytesToHex policySig]
          merkleRoot
          createdAt := clock (readings + 1) }
        ({ state with policies := state.policies.set policyId policy }, .ok policy)

/-! ## What a policy needs -/

variable {oracles ed25519Sign}

theorem computePolicyMerkleRoot_ok_iff {sha256 : Bytes → Digest} {tiers : List ApprovalTier}
    {rules : List CircuitBreakerRule} :
    (∃ root, computePolicyMerkleRoot sha256 tiers rules = .ok root) ↔ tiers ≠ [] ∨ rules ≠ [] := by
  have hnone : MerkleTree.root (merkleNode sha256) (policyLeaves sha256
      (tiers.map ApprovalTier.toJson ++ rules.map CircuitBreakerRule.toJson)) = none ↔ _ :=
    MerkleTree.root_eq_none_iff (merkleNode sha256)
  rw [policyLeaves, List.map_eq_nil_iff, List.append_eq_nil_iff, List.map_eq_nil_iff,
    List.map_eq_nil_iff, ← policyLeaves] at hnone
  rw [computePolicyMerkleRoot, merkleRootOfObjects, ← not_and_or, ← hnone]
  cases MerkleTree.root (merkleNode sha256) (policyLeaves sha256
      (tiers.map ApprovalTier.toJson ++ rules.map CircuitBreakerRule.toJson)) with
  | none => simp
  | some root => simp

/-- A private key of Ed25519 that can be read. -/
def CanSign (key : SecureBuffer) : Prop := ∃ bytes, key.bytes = .ok bytes ∧ bytes.length = 32

theorem policySignature_ok_iff
    (hsign : ∀ message key, (∃ sig, ed25519Sign message key = .ok sig) ↔ key.length = 32)
    {masterPolicyKey : SecureBuffer} {tiers : List ApprovalTier} {now : ℤ} :
    (∃ sig, policySignature ed25519Sign masterPolicyKey (policyIdOf oracles tiers now) = .ok sig) ↔
      CanSign masterPolicyKey := by
  rw [policyIdOf, policySignature, removeHexPrefix_append, bytesToHex_take _ 16,
    hexToBytes_bytesToHex, CanSign]
  cases masterPolicyKey.bytes with
  | error e => simp [bind, Except.bind]
  | ok key =>
    simp only [bind, Except.bind, Except.ok.injEq, exists_eq_left']
    exact hsign _ key

/-- The call returns a policy. -/
def Accepts (oracles : GovernanceOracles) (ed25519Sign : Bytes → Bytes → Except JSError Bytes)
    (masterPolicyKey : SecureBuffer) (state : GovernanceState)
    (approverSignatures : InsertionMap GovernanceRole JSString) (clock : ℕ → ℤ)
    (tiers : List ApprovalTier) (rules : List CircuitBreakerRule) : Prop :=
  ∃ policy, (createPolicy oracles ed25519Sign masterPolicyKey state approverSignatures tiers rules
    clock).2 = .ok policy

/-- Three approvals, something to hash and a key to sign with. -/
theorem createPolicy_ok_iff
    (hsign : ∀ message key, (∃ sig, ed25519Sign message key = .ok sig) ↔ key.length = 32)
    {masterPolicyKey : SecureBuffer} {state : GovernanceState}
    {approverSignatures : InsertionMap GovernanceRole JSString} {clock : ℕ → ℤ}
    {tiers : List ApprovalTier} {rules : List CircuitBreakerRule} :
    Accepts oracles ed25519Sign masterPolicyKey state approverSignatures clock tiers rules ↔
      3 ≤ approvalCount oracles state approverSignatures clock ∧ (tiers ≠ [] ∨ rules ≠ []) ∧
        CanSign masterPolicyKey := by
  have hroot : (∃ root, computePolicyMerkleRoot oracles.sha256 tiers rules = .ok root) ↔ _ :=
    computePolicyMerkleRoot_ok_iff
  have hpolicySig : (∃ sig, policySignature ed25519Sign masterPolicyKey
      (policyIdOf oracles tiers (clock (2 * approverSignatures.size))) = .ok sig) ↔ _ :=
    policySignature_ok_iff hsign
  rw [← hroot, ← hpolicySig, Accepts, createPolicy]
  dsimp only
  split
  next hfew => simp [hfew]
  next hmany =>
    rw [not_lt] at hmany
    cases computePolicyMerkleRoot oracles.sha256 tiers rules with
    | error e => simp
    | ok root =>
      cases policySignature ed25519Sign masterPolicyKey
          (policyIdOf oracles tiers (clock (2 * approverSignatures.size))) with
      | error e => simp
      | ok sig => simp [hmany]

/-- **The approvals do not bind the policy.** With three of them and a master key that
signs, one set of approvals is accepted for any tiers and rules. -/
theorem approvals_bind_policy_iff (oracles : GovernanceOracles)
    (ed25519Sign : Bytes → Bytes → Except JSError Bytes)
    (hsign : ∀ message key, (∃ sig, ed25519Sign message key = .ok sig) ↔ key.length = 32)
    (masterPolicyKey : SecureBuffer) (state : GovernanceState)
    (approverSignatures : InsertionMap GovernanceRole JSString) (clock : ℕ → ℤ) :
    (∀ tiers rules tiers' rules',
      Accepts oracles ed25519Sign masterPolicyKey state approverSignatures clock tiers rules →
      (tiers', rules') ≠ (tiers, rules) →
      ¬Accepts oracles ed25519Sign masterPolicyKey state approverSignatures clock tiers' rules') ↔
    approvalCount oracles state approverSignatures clock < 3 ∨ ¬CanSign masterPolicyKey := by
  simp only [createPolicy_ok_iff hsign]
  constructor
  · intro h
    by_contra hnot
    rw [not_or, not_not, not_lt] at hnot
    refine h [] [panicRule] [] [panicRule, panicRule] ⟨hnot.1, Or.inr (by simp), hnot.2⟩ (by simp)
      ⟨hnot.1, Or.inr (by simp), hnot.2⟩
  · rintro (hfew | hkey) tiers rules tiers' rules' ⟨hmany, -, hsigns⟩
    · omega
    · exact absurd hsigns hkey

/-! ## The clock -/

/-- One pass of the loop of `triggerEmergency`. -/
def emergencyApproval (oracles : GovernanceOracles) (state : GovernanceState)
    (triggerReason : JSString) (role : GovernanceRole) (sig : JSString)
    (messageTime now : ℤ) : Bool :=
  (verifyRoleSignature oracles state role
    (textEncode (js "EMERGENCY:" ++ triggerReason ++ js ":" ++ bigintString messageTime)) sig
    now).valid

theorem length_emergencyApprovers (state : GovernanceState) (triggerReason : JSString)
    (clock : ℕ → ℤ) (entries : List ((GovernanceRole × JSString) × ℕ)) :
    (emergencyApprovers oracles state triggerReason clock entries).length =
      entries.countP fun ((role, sig), k) => emergencyApproval oracles state triggerReason role sig
        (clock (2 * k)) (clock (2 * k + 1)) := by
  induction entries with
  | nil => rfl
  | cons e entries ih =>
    obtain ⟨⟨role, sig⟩, k⟩ := e
    rw [emergencyApprovers, List.countP_cons]
    dsimp only
    split
    next identity hvalid hidentity =>
      have happroval : emergencyApproval oracles state triggerReason role sig (clock (2 * k))
          (clock (2 * k + 1)) = true := hvalid
      rw [List.length_cons, ih, if_pos happroval]
    next hnone =>
      rw [ih, if_neg, Nat.add_zero]
      intro hvalid
      have hsome := (verifyRoleSignature_isSome _ _ _ _ _).symm.trans hvalid
      obtain ⟨identity, hidentity⟩ := Option.isSome_iff_exists.mp hsome
      exact hnone identity hvalid hidentity

theorem triggerEmergency_ok_iff {state : GovernanceState} {triggerReason triggeredBy : JSString}
    {approverSignatures : InsertionMap GovernanceRole JSString} {clock : ℕ → ℤ} :
    (∃ emergency, (triggerEmergency oracles state triggerReason triggeredBy approverSignatures
        clock).2 = .ok emergency) ↔
      2 ≤ countApprovals (emergencyApproval oracles state triggerReason) approverSignatures
        clock := by
  rw [countApprovals, ← length_emergencyApprovers, triggerEmergency]
  dsimp only
  split
  next hfew => simp [hfew]
  next hmany => simp [not_lt.mp hmany]

/-- At the checks, a delegation is expired in both calls or in neither. -/
def SameExpiry (state : GovernanceState) (clock clock' : ℕ → ℤ) : Prop :=
  ∀ identity ∈ state.roleIdentities.values, ∀ k,
    identity.expired (clock (2 * k + 1)) = identity.expired (clock' (2 * k + 1))

/-- A signature is an approval at some time. -/
def Approvable (approval : GovernanceRole → JSString → ℤ → ℤ → Bool)
    (e : GovernanceRole × JSString) : Prop :=
  ∃ messageTime now, approval e.1 e.2 messageTime now = true

/-- A clock with given readings for the messages and for the checks. -/
def clockOf (messageTime now : ℕ → ℤ) (i : ℕ) : ℤ :=
  if i % 2 = 0 then messageTime (i / 2) else now (i / 2)

theorem clockOf_even (messageTime now : ℕ → ℤ) (k : ℕ) :
    clockOf messageTime now (2 * k) = messageTime k := by
  rw [clockOf, if_pos (by omega), show 2 * k / 2 = k by omega]

theorem clockOf_odd (messageTime now : ℕ → ℤ) (k : ℕ) :
    clockOf messageTime now (2 * k + 1) = now k := by
  rw [clockOf, if_neg (by omega), show (2 * k + 1) / 2 = k by omega]

section Counting

open Classical

variable {approval : GovernanceRole → JSString → ℤ → ℤ → Bool}
  {approverSignatures : InsertionMap GovernanceRole JSString}

/-- The signatures that are approvals at some time. -/
noncomputable def countApprovable (approval : GovernanceRole → JSString → ℤ → ℤ → Bool)
    (approverSignatures : InsertionMap GovernanceRole JSString) : ℕ :=
  approverSignatures.entries.countP fun e => decide (Approvable approval e)

theorem countApprovable_eq : countApprovable approval approverSignatures =
    approverSignatures.entries.zipIdx.countP fun e => decide (Approvable approval e.1) := by
  conv_lhs => rw [countApprovable, ← List.zipIdx_map_fst 0 approverSignatures.entries]
  rw [List.countP_map]
  rfl

variable (approval approverSignatures) in
theorem countApprovals_le (clock : ℕ → ℤ) :
    countApprovals approval approverSignatures clock ≤
      countApprovable approval approverSignatures := by
  rw [countApprovable_eq]
  apply List.countP_mono_left
  rintro ⟨⟨role, sig⟩, k⟩ - happroval
  exact decide_eq_true ⟨_, _, happroval⟩

variable (approval approverSignatures) in
/-- At the right readings every signature that can be an approval is one. -/
theorem exists_countApprovals : ∃ clock, countApprovals approval approverSignatures clock =
    countApprovable approval approverSignatures := by
  have htimes : ∀ k : ℕ, ∃ messageTime now, ∀ e, approverSignatures.entries[k]? = some e →
      Approvable approval e → approval e.1 e.2 messageTime now = true := by
    intro k
    cases hk : approverSignatures.entries[k]? with
    | none => exact ⟨0, 0, fun e he => by cases he⟩
    | some e =>
      by_cases happrovable : Approvable approval e
      · obtain ⟨messageTime, now, h⟩ := happrovable
        exact ⟨messageTime, now, fun e' he' _ => by rwa [← Option.some.inj he']⟩
      · exact ⟨0, 0, fun e' he' h => absurd (Option.some.inj he' ▸ h) happrovable⟩
  choose messageTime now htimes using htimes
  refine ⟨clockOf messageTime now, ?_⟩
  rw [countApprovable_eq, countApprovals]
  apply List.countP_congr
  rintro ⟨⟨role, sig⟩, k⟩ hmem
  rw [List.mem_zipIdx_iff_getElem?] at hmem
  simp only [clockOf_even, clockOf_odd, decide_eq_true_eq]
  exact ⟨fun h => ⟨_, _, h⟩, fun h => htimes k _ hmem h⟩

/-- **The clock.** Where a signature is an approval at finitely many times only, the
outcome is the same at all readings exactly when there are never enough approvals. -/
theorem clock_independent_iff {state : GovernanceState} {needed : ℕ} (hneeded : 0 < needed)
    (hfinite : ∀ role sig, {t | ∃ now, approval role sig t now = true}.Finite) :
    (∀ clock clock', SameExpiry state clock clock' →
      (needed ≤ countApprovals approval approverSignatures clock ↔
        needed ≤ countApprovals approval approverSignatures clock')) ↔
    countApprovable approval approverSignatures < needed := by
  constructor
  · intro h
    by_contra hmany
    obtain ⟨clock, hclock⟩ := exists_countApprovals approval approverSignatures
    have hfresh : ∀ e : GovernanceRole × JSString, ∃ t, ∀ now, ¬approval e.1 e.2 t now = true := by
      intro e
      obtain ⟨t, ht⟩ := (hfinite e.1 e.2).infinite_compl.nonempty
      exact ⟨t, fun now hnow => ht ⟨now, hnow⟩⟩
    choose fresh hfresh using hfresh
    let messageTime : ℕ → ℤ := fun k => (approverSignatures.entries[k]?.map fresh).getD 0
    have hnone : countApprovals approval approverSignatures
        (clockOf messageTime fun k => clock (2 * k + 1)) = 0 := by
      rw [countApprovals, List.countP_eq_zero]
      rintro ⟨⟨role, sig⟩, k⟩ hmem
      rw [List.mem_zipIdx_iff_getElem?] at hmem
      have htime : messageTime k = fresh (role, sig) := by simp [messageTime, hmem]
      simp only [clockOf_even, clockOf_odd, htime]
      exact hfresh (role, sig) _
    have hsame : SameExpiry state clock (clockOf messageTime fun k => clock (2 * k + 1)) := by
      intro identity _ k
      rw [clockOf_odd]
    have henough := (h clock _ hsame).mp (by omega)
    omega
  · intro hfew clock clock' _
    have hle := countApprovals_le approval approverSignatures clock
    have hle' := countApprovals_le approval approverSignatures clock'
    omega

end Counting

/-- A signature is valid under one key for one message. -/
def BindsMessage (oracles : GovernanceOracles) : Prop :=
  ∀ sig pub message message', oracles.ed25519Verify sig message pub = .ok true →
    oracles.ed25519Verify sig message' pub = .ok true → message = message'

theorem ed25519Check_binds (h : BindsMessage oracles) {pubKey sig : JSString}
    {message message' : Bytes} (hcheck : ed25519Check oracles pubKey message sig = .ok true)
    (hcheck' : ed25519Check oracles pubKey message' sig = .ok true) : message = message' := by
  obtain ⟨pub, hpub, hcheck⟩ := bind_eq_ok hcheck
  obtain ⟨bytes, hbytes, hcheck⟩ := bind_eq_ok hcheck
  obtain ⟨pub', hpub', hcheck'⟩ := bind_eq_ok hcheck'
  obtain ⟨bytes', hbytes', hcheck'⟩ := bind_eq_ok hcheck'
  obtain rfl := Except.ok.inj (hpub.symm.trans hpub')
  obtain rfl := Except.ok.inj (hbytes.symm.trans hbytes')
  exact h _ _ _ _ hcheck hcheck'

/-- A signature is valid for the messages of finitely many times. -/
theorem finite_valid_times (h : BindsMessage oracles) {message : ℤ → Bytes}
    (hmessage : Function.Injective message) (state : GovernanceState) (role : GovernanceRole)
    (sig : JSString) :
    {t | ∃ now,
      (verifyRoleSignature oracles state role (message t) sig now).valid = true}.Finite := by
  have hkey : ∀ pubKey, {t | ed25519Check oracles pubKey (message t) sig = .ok true}.Finite := by
    intro pubKey
    apply Set.Subsingleton.finite
    intro t ht t' ht'
    exact hmessage (ed25519Check_binds h ht ht')
  refine (Set.Finite.biUnion (List.finite_toSet state.roleIdentities.keys)
    fun pubKey _ => hkey pubKey).subset ?_
  rintro t ⟨now, hvalid⟩
  rw [verifyRoleSignature_isSome, Option.isSome_iff_exists] at hvalid
  obtain ⟨identity, hidentity⟩ := hvalid
  obtain ⟨pubKey, hget, -, hcheck⟩ := verifyRoleSignature_valid hidentity
  refine Set.mem_biUnion (x := pubKey) ?_ hcheck
  exact List.mem_map.mpr ⟨_, InsertionMap.get_eq_some_iff.mp hget, rfl⟩

theorem GovernanceRole.text_ascii (role : GovernanceRole) : ∀ c ∈ role.text, c < 128 := by
  apply ascii_of_all
  cases role <;> decide

theorem policyMessage_injective (role : GovernanceRole) :
    Function.Injective (policyMessage role) := by
  intro t t' h
  have hascii : ∀ t, ∀ c ∈ js "POLICY_CHANGE:" ++ bigintString t ++ js ":" ++ role.text,
      c < 128 := by
    intro t
    simp only [List.forall_mem_append]
    exact ⟨⟨⟨ascii_of_all (by decide), bigintString_ascii t⟩, ascii_of_all (by decide)⟩,
      role.text_ascii⟩
  have htext := textEncode_ascii_inj (hascii t) (hascii t') h
  simp only [List.append_assoc] at htext
  have hcut := List.append_cancel_left htext
  rw [← List.append_assoc, ← List.append_assoc] at hcut
  exact bigintString_injective (List.append_cancel_right (List.append_cancel_right hcut))

theorem emergencyMessage_injective (triggerReason : JSString) : Function.Injective fun t =>
    textEncode (js "EMERGENCY:" ++ triggerReason ++ js ":" ++ bigintString t) := by
  intro t t' h
  have hcut : ∀ t, textEncode (js "EMERGENCY:" ++ triggerReason ++ js ":" ++ bigintString t) =
      textEncode (js "EMERGENCY:" ++ triggerReason) ++ textEncode (58 :: bigintString t) := by
    intro t
    rw [← textEncode_append (by decide)]
    simp [js, utf16Units]
  have hascii : ∀ t, ∀ c ∈ 58 :: bigintString t, c < 128 :=
    fun t => List.forall_mem_cons.mpr ⟨by decide, bigintString_ascii t⟩
  dsimp only at h
  rw [hcut, hcut] at h
  have htext := textEncode_ascii_inj (hascii t) (hascii t') (List.append_cancel_left h)
  exact bigintString_injective (List.cons.inj htext).2

/-- **Approvals are for one reading of the clock.** When Ed25519 signatures bind their
message, the outcome does not depend on the readings exactly when the signatures are
never enough. -/
theorem approvals_clock_independent_iff (oracles : GovernanceOracles) (h : BindsMessage oracles)
    (state : GovernanceState) (approverSignatures : InsertionMap GovernanceRole JSString) :
    ((∀ clock clock', SameExpiry state clock clock' →
      (3 ≤ approvalCount oracles state approverSignatures clock ↔
        3 ≤ approvalCount oracles state approverSignatures clock')) ↔
      countApprovable (policyApproval oracles state) approverSignatures < 3) ∧
    ∀ triggerReason triggeredBy, (∀ clock clock', SameExpiry state clock clock' →
      ((∃ emergency, (triggerEmergency oracles state triggerReason triggeredBy approverSignatures
          clock).2 = .ok emergency) ↔
        ∃ emergency, (triggerEmergency oracles state triggerReason triggeredBy approverSignatures
          clock').2 = .ok emergency)) ↔
      countApprovable (emergencyApproval oracles state triggerReason) approverSignatures < 2 := by
  constructor
  · exact clock_independent_iff (by decide) fun role sig =>
      finite_valid_times h (policyMessage_injective role) state role sig
  · intro triggerReason triggeredBy
    simp only [triggerEmergency_ok_iff]
    exact clock_independent_iff (by decide) fun role sig =>
      finite_valid_times h (emergencyMessage_injective triggerReason) state role sig

/-! ## Three holders on the first of January

The keys of the seeds 01…01, 02…02 and 03…03, and their signatures. -/

/-- The bytes of a number, first byte first. -/
def bytesOf (length n : ℕ) : Bytes :=
  (List.range length).map fun i => UInt8.ofNat (n / 256 ^ (length - 1 - i))

def adminKey : Bytes :=
  bytesOf 32 0x8a88e3dd7409f195fd52db2d3cba5d72ca6709bf1d94121bf3748801b40f6f5c

def complianceKey : Bytes :=
  bytesOf 32 0x8139770ea87d175f56a35466c34c7ecccb8d8a91b4ee37a25df60f5b8fc9b394

def treasuryKey : Bytes :=
  bytesOf 32 0xed4928c628d1c2c6eae90338905995612959273a5c63f93636c14614ac8737d1

def adminApproval : Bytes :=
  bytesOf 32 0xf6c136bbb6fd106ca69056b968341e55d85bcc6076efb0fbf141f09dd2ac99fc ++
    bytesOf 32 0x61cbe11e1fd33b2c95c0591a33160204a32584aec4734c6b0e3c25643003bd06

def complianceApproval : Bytes :=
  bytesOf 32 0x0e2b7c3d7bb646c6a8cc5b001fe97607d600471129dd09db9157c0cee4816636 ++
    bytesOf 32 0xa9dd274d1f4f558172155dffff6f23c7bc56c8b263cda5a8069ac5dedf42290f

def treasuryApproval : Bytes :=
  bytesOf 32 0xf0841beb19d10f0528483031666bcb0c85e206bd5c7f2d076ee5d9ffcd410df6 ++
    bytesOf 32 0xa3a205ff4cf97ce3ade2bcf2116ee8595b8ac1f91046b4fec0c72f543aef2d09

def adminAlarm : Bytes :=
  bytesOf 32 0x84d71f66961bb09843eef4a5e6a49d43e80d630ac2ed88257c253fa276c9440a ++
    bytesOf 32 0x62ad5f945f7fd8e35c0a01a1c311049651be7dd14a701f0153000369d530620d

def treasuryAlarm : Bytes :=
  bytesOf 32 0x63550b8d33320af9662764229b9b6b7016bf6e33fd292da568e3ca2f8e493e39 ++
    bytesOf 32 0x40dfe11c06a9da57bf1f0d991396802b40d1d574aade04c47acb078df3c79303

/-- What was signed: key, text and signature. -/
def signedTexts : List (Bytes × JSString × Bytes) :=
  [(adminKey, js "POLICY_CHANGE:1767225600000:ADMIN", adminApproval),
    (complianceKey, js "POLICY_CHANGE:1767225600000:COMPLIANCE", complianceApproval),
    (treasuryKey, js "POLICY_CHANGE:1767225600000:TREASURY", treasuryApproval),
    (adminKey, js "EMERGENCY:drill:1767225600000", adminAlarm),
    (treasuryKey, js "EMERGENCY:drill:1767225600000", treasuryAlarm)]

/-- SHA-256 of `[]1767225600000`. -/
def policyIdDigest : Digest :=
  ⟨[0x82, 0x47, 0xab, 0xb9, 0x9d, 0xdd, 0xaf, 0x01, 0x34, 0x89, 0x5b,
    0x42, 0x1f, 0x33, 0x38, 0xd7, 0xbf, 0x38, 0x6c, 0xda, 0x3e, 0x8e,
    0x3e, 0xe4, 0x94, 0x5c, 0x27, 0x5d, 0x5c, 0x53, 0xc3, 0xd0], rfl⟩

/-- Only what was signed is valid. -/
def holderOracles : GovernanceOracles where
  sha256 bytes := if bytes = textEncode (js "[]1767225600000") then policyIdDigest
    else merkleSha256 bytes
  ed25519Verify sig message pub := .ok (signedTexts.any fun (key, text, signature) =>
    pub = key && message = textEncode text && sig = signature)
  verifyBLSSignature _ _ _ := false
  aggregateSignatures _ := .error externalError
  numberString x := numberString (.finite x)

/-- The master key 09…09 and its signature of the policy's id. -/
def masterKey : SecureBuffer := SecureBuffer.ofBytes (List.replicate 32 9)

def masterSign (_ key : Bytes) : Except JSError Bytes :=
  if key.length = 32 then
    .ok (bytesOf 32 0x48ecbb200bce5f1ba9c200e0635f64ea32cfd8565e972a7d751d4634024eb221 ++
      bytesOf 32 0xc3f0f73dbf8e668e947e58eb0e7eadad766abd4d7dbd64ebfabcd5aa517fba0a)
  else .error externalError

theorem masterSign_ok_iff (message key : Bytes) :
    (∃ sig, masterSign message key = .ok sig) ↔ key.length = 32 := by
  rw [masterSign]
  split
  next h => simp [h]
  next h => simp [h]

theorem canSign_masterKey : CanSign masterKey := ⟨_, rfl, rfl⟩

def hexText (bytes : Bytes) : JSString := js "0x" ++ bytesToHex bytes

theorem hexToBytes_hexText (bytes : Bytes) :
    hexToBytes (removeHexPrefix (hexText bytes)) = .ok bytes := by
  rw [hexText, removeHexPrefix_append, hexToBytes_bytesToHex]

def threeHolders : GovernanceState :=
  let s := (registerRoleIdentity (newEngine .empty) .ADMIN (hexText adminKey) (js "m/0") []).1
  let s := (registerRoleIdentity s .COMPLIANCE (hexText complianceKey) (js "m/1") []).1
  (registerRoleIdentity s .TREASURY (hexText treasuryKey) (js "m/2") []).1

def policyApprovals : InsertionMap GovernanceRole JSString :=
  ((InsertionMap.empty.set .ADMIN (hexText adminApproval)).set .COMPLIANCE
    (hexText complianceApproval)).set .TREASURY (hexText treasuryApproval)

def alarms : InsertionMap GovernanceRole JSString :=
  (InsertionMap.empty.set .ADMIN (hexText adminAlarm)).set .TREASURY (hexText treasuryAlarm)

/-- A clock that stands still. -/
def newYear (_ : ℕ) : ℤ := 1767225600000

theorem bindsMessage_holderOracles : BindsMessage holderOracles := by
  have hall : ∀ e ∈ signedTexts, ∀ e' ∈ signedTexts, e.2.2 = e'.2.2 → e = e' := by
    decide
  intro sig pub message message' h h'
  obtain ⟨e, he, hmatch⟩ := List.any_eq_true.mp (Except.ok.inj h)
  obtain ⟨e', he', hmatch'⟩ := List.any_eq_true.mp (Except.ok.inj h')
  simp only [Bool.and_eq_true, decide_eq_true_eq] at hmatch hmatch'
  rw [hmatch.1.2, hmatch'.1.2, hall e he e' he' (hmatch.2.symm.trans hmatch'.2)]

theorem approvalCount_newYear :
    3 ≤ approvalCount holderOracles threeHolders policyApprovals newYear := by
  decide

theorem approvalCount_late :
    approvalCount holderOracles threeHolders policyApprovals (fun k => newYear k + 1) < 3 := by
  decide

/-- One set of approvals is accepted for two policies. -/
theorem same_approvals_two_policies : BindsMessage holderOracles ∧
    Accepts holderOracles masterSign masterKey threeHolders policyApprovals newYear []
      [panicRule] ∧
    Accepts holderOracles masterSign masterKey threeHolders policyApprovals newYear []
      [panicRule, panicRule] := by
  refine ⟨bindsMessage_holderOracles, ?_, ?_⟩
  · exact (createPolicy_ok_iff masterSign_ok_iff).mpr
      ⟨approvalCount_newYear, Or.inr (by simp), canSign_masterKey⟩
  · exact (createPolicy_ok_iff masterSign_ok_iff).mpr
      ⟨approvalCount_newYear, Or.inr (by simp), canSign_masterKey⟩

/-- A millisecond later nothing is accepted. -/
theorem approvals_bind_policy_late :
    approvalCount holderOracles threeHolders policyApprovals (fun k => newYear k + 1) < 3 ∧
      ∀ tiers rules tiers' rules',
        Accepts holderOracles masterSign masterKey threeHolders policyApprovals
          (fun k => newYear k + 1) tiers rules → (tiers', rules') ≠ (tiers, rules) →
        ¬Accepts holderOracles masterSign masterKey threeHolders policyApprovals
          (fun k => newYear k + 1) tiers' rules' :=
  ⟨approvalCount_late, (approvals_bind_policy_iff holderOracles masterSign masterSign_ok_iff masterKey
    threeHolders policyApprovals fun k => newYear k + 1).mpr (Or.inl approvalCount_late)⟩

/-- A millisecond decides, with no delegation. -/
theorem approvals_of_one_millisecond : BindsMessage holderOracles ∧
    SameExpiry threeHolders newYear (fun k => newYear k + 1) ∧
    3 ≤ approvalCount holderOracles threeHolders policyApprovals newYear ∧
    ¬3 ≤ approvalCount holderOracles threeHolders policyApprovals (fun k => newYear k + 1) ∧
    (∃ emergency, (triggerEmergency holderOracles threeHolders (js "drill") (js "alice") alarms
      newYear).2 = .ok emergency) ∧
    ¬∃ emergency, (triggerEmergency holderOracles threeHolders (js "drill") (js "alice") alarms
      (fun k => newYear k + 1)).2 = .ok emergency := by
  simp only [triggerEmergency_ok_iff]
  refine ⟨bindsMessage_holderOracles, ?_, approvalCount_newYear, not_le.mpr approvalCount_late,
    by decide, by decide⟩
  intro identity hidentity k
  have hnone : identity.expiresAt = none := by
    have hall : ∀ identity ∈ threeHolders.roleIdentities.values, identity.expiresAt = none := by
      decide
    exact hall identity hidentity
  simp [RoleIdentity.expired, hnone]

/-- One signature is never enough. -/
theorem approvals_clock_independent_one :
    (∀ clock clock', SameExpiry threeHolders clock clock' →
      (3 ≤ approvalCount holderOracles threeHolders
          (InsertionMap.empty.set .ADMIN (hexText adminApproval)) clock ↔
        3 ≤ approvalCount holderOracles threeHolders
          (InsertionMap.empty.set .ADMIN (hexText adminApproval)) clock')) ∧
    ∀ clock clock', SameExpiry threeHolders clock clock' →
      ((∃ emergency, (triggerEmergency holderOracles threeHolders (js "drill") (js "alice")
          (InsertionMap.empty.set .ADMIN (hexText adminApproval)) clock).2 = .ok emergency) ↔
        ∃ emergency, (triggerEmergency holderOracles threeHolders (js "drill") (js "alice")
          (InsertionMap.empty.set .ADMIN (hexText adminApproval)) clock').2 = .ok emergency) := by
  have hone : ∀ approval,
      countApprovable approval (InsertionMap.empty.set .ADMIN (hexText adminApproval)) ≤ 1 :=
    fun _ => List.countP_le_length
  obtain ⟨hpolicy, hemergency⟩ := approvals_clock_independent_iff holderOracles
    bindsMessage_holderOracles threeHolders (InsertionMap.empty.set .ADMIN (hexText adminApproval))
  exact ⟨hpolicy.mpr ((hone _).trans_lt (by decide)),
    (hemergency _ _).mpr ((hone _).trans_lt (by decide))⟩

end BioFire.Governance
