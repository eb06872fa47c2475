import BioFire.BlsEngine
import BioFire.InsertionMap
import BioFire.Runs
import BioFire.Vdf

/-!
# Approvals (`src/lib/governance/governance_engine.ts`)

Roles, pending approvals and the emergency freeze of a `GovernanceEngine`. The
policies are given. Pending approvals are objects: `pendingApprovals` maps an id to
the position of its object in `approvals`, and the promise of a time lock keeps
such a position.

* `verifyRoleSignature_valid`: what an accepted role signature shows;
* `ApprovalChange`, `step_approvals`: what one event can do to an approval.
-/

namespace BioFire.Governance

inductive GovernanceRole where
  | ADMIN | TREASURY | COMPLIANCE | RISK_OFFICER | AUDITOR
  deriving DecidableEq, Repr

/-- The string that the type allows. -/
def GovernanceRole.text : GovernanceRole → JSString
  | .ADMIN => js "ADMIN"
  | .TREASURY => js "TREASURY"
  | .COMPLIANCE => js "COMPLIANCE"
  | .RISK_OFFICER => js "RISK_OFFICER"
  | .AUDITOR => js "AUDITOR"

theorem GovernanceRole.text_injective : Function.Injective GovernanceRole.text := by
  intro role role' h
  cases role <;> cases role' <;> first | rfl | exact absurd h (by decide)

structure RoleIdentity where
  role : GovernanceRole
  ed25519PublicKey : JSString
  blsPublicKey : JSString
  hdPath : JSString
  delegatedBy : Option JSString
  expiresAt : Option ℤ

structure ApprovalTier where
  tierName : JSString
  minAmountUSD : ℚ
  maxAmountUSD : ℚ
  requiredRoles : List GovernanceRole
  thresholdCount : ℚ
  timeLockSeconds : ℚ
  requiresEmergencyOverride : Bool

inductive BreakerCondition where
  | VELOCITY_SPIKE | ANOMALOUS_AMOUNT | FAILED_AUTH | MANUAL_PANIC
  deriving DecidableEq, Repr

inductive BreakerAction where
  | FREEZE_OUTBOUND | FREEZE_ALL | ALERT_ONLY
  deriving DecidableEq, Repr

structure CircuitBreakerRule where
  ruleId : JSString
  condition : BreakerCondition
  threshold : ℚ
  action : BreakerAction
  durationMinutes : ℚ

structure GovernancePolicy where
  policyId : JSString
  version : ℕ
  tiers : List ApprovalTier
  circuitBreakerRules : List CircuitBreakerRule
  signedBy : List JSString
  merkleRoot : JSString
  createdAt : ℤ

inductive ApprovalStatus where
  | PENDING | TIME_LOCKED | APPROVED | REJECTED | EXPIRED
  deriving DecidableEq, Repr

structure PendingApproval where
  approvalId : JSString
  transactionHash : JSString
  amountUSD : ℚ
  tier : ApprovalTier
  /-- From `ed25519PublicKey` to the BLS signature. -/
  approvals : InsertionMap JSString JSString
  timeLockEnvelope : Option TimeLockEnvelope
  status : ApprovalStatus
  createdAt : ℤ
  expiresAt : ℤ

structure EmergencyState where
  isActive : Bool
  triggeredBy : JSString
  triggerReason : JSString
  triggeredAt : ℤ
  expiresAt : ℤ
  requiredUnfreezeApprovals : ℕ
  unfreezeApprovals : List JSString

structure GovernanceState where
  roleIdentities : InsertionMap JSString RoleIdentity
  policies : InsertionMap JSString GovernancePolicy
  pendingApprovals : InsertionMap JSString ℕ
  emergencyState : Option EmergencyState
  /-- The approval objects in the order of their creation. -/
  approvals : List PendingApproval
  /-- The approvals that a time-lock promise still waits for. -/
  timeLocks : List ℕ

/-- The functions the engine calls; `ed25519Verify sig message pub` may throw. -/
structure GovernanceOracles where
  sha256 : Bytes → Digest
  ed25519Verify : Bytes → Bytes → Bytes → Except JSError Bool
  verifyBLSSignature : JSString → Bytes → JSString → Bool
  aggregateSignatures : List (JSString × ℕ) → Except JSError Bls.AggregatedApproval
  /-- A number in a template string. -/
  numberString : ℚ → JSString

/-- An engine with policies and nothing else. -/
def newEngine (policies : InsertionMap JSString GovernancePolicy) : GovernanceState where
  roleIdentities := .empty
  policies
  pendingApprovals := .empty
  emergencyState := none
  approvals := []
  timeLocks := []

/-! ## Role management -/

def registerRoleIdentity (state : GovernanceState) (role : GovernanceRole)
    (ed25519PublicKey hdPath blsPublicKey : JSString) : GovernanceState × RoleIdentity :=
  let identity : RoleIdentity := {
    role, ed25519PublicKey, blsPublicKey, hdPath, delegatedBy := none, expiresAt := none }
  ({ state with roleIdentities := state.roleIdentities.set ed25519PublicKey identity }, identity)

structure RoleCheck where
  valid : Bool
  identity : Option RoleIdentity
  reason : Option JSString

/-- `identity.expiresAt && identity.expiresAt < Date.now()` -/
def RoleIdentity.expired (identity : RoleIdentity) (now : ℤ) : Bool :=
  match identity.expiresAt with
  | none => false
  | some t => t ≠ 0 && t < now

variable (oracles : GovernanceOracles)

/-- The body of the `try`: one key against one signature. -/
def ed25519Check (pubKey : JSString) (message : Bytes) (signatureHex : JSString) :
    Except JSError Bool := do
  let pub ← hexToBytes (removeHexPrefix pubKey)
  let sig ← hexToBytes (removeHexPrefix signatureHex)
  oracles.ed25519Verify sig message pub

/-- The loop of `verifyRoleSignature` over the registered identities. -/
def verifyRoleLoop (role : GovernanceRole) (message : Bytes) (signatureHex : JSString) (now : ℤ) :
    List (JSString × RoleIdentity) → RoleCheck
  | [] => ⟨false, none, some (js "No valid signature from registered role holder")⟩
  | (pubKey, identity) :: rest =>
    if identity.role ≠ role then verifyRoleLoop role message signatureHex now rest
    else
      match ed25519Check oracles pubKey message signatureHex with
      | .ok true =>
        if identity.expired now then ⟨false, none, some (js "Delegation expired")⟩
        else ⟨true, some identity, none⟩
      | _ => verifyRoleLoop role message signatureHex now rest

def verifyRoleSignature (state : GovernanceState) (role : GovernanceRole) (message : Bytes)
    (signatureHex : JSString) (now : ℤ) : RoleCheck :=
  verifyRoleLoop oracles role message signatureHex now state.roleIdentities.entries

/-! ## Transaction approval

The readings of the clock in one call are `clock 0`, `clock 1` and so on. -/

def approvalIdOf (transactionHash : JSString) (amountUSD : ℚ) (now : ℤ) : JSString :=
  js "0x" ++ (bytesToHex (oracles.sha256 (textEncode (transactionHash ++ js ":" ++
    oracles.numberString amountUSD ++ js ":" ++ bigintString now))).1).take 32

def initiateApproval (state : GovernanceState) (transactionHash : JSString) (amountUSD : ℚ)
    (policyId : JSString) (clock : ℕ → ℤ) : GovernanceState × Except JSError PendingApproval :=
  match state.policies.get policyId with
  | none => (state, .error (plainError (js "Policy not found")))
  | some policy =>
    match policy.tiers.find? fun t => t.minAmountUSD ≤ amountUSD && amountUSD ≤ t.maxAmountUSD with
    | none => (state, .error (plainError (js "Amount exceeds all policy tiers")))
    | some tier =>
      match state.emergencyState.filter EmergencyState.isActive with
      | some emergency =>
        (state, .error (plainError (js "Emergency freeze active: " ++ emergency.triggerReason)))
      | none =>
        let approvalId := approvalIdOf oracles transactionHash amountUSD (clock 0)
        let approval : PendingApproval := {
          approvalId
          transactionHash
          amountUSD
          tier
          approvals := .empty
          timeLockEnvelope := none
          status := if 0 < tier.timeLockSeconds then .TIME_LOCKED else .PENDING
          createdAt := clock 1
          expiresAt := clock 2 + 24 * 60 * 60 * 1000 }
        let ref := state.approvals.length
        ({ state with
            approvals := state.approvals ++ [approval]
            timeLocks :=
              if 0 < tier.timeLockSeconds then state.timeLocks ++ [ref] else state.timeLocks
            pendingApprovals := state.pendingApprovals.set approvalId ref }, .ok approval)

/-- The continuation of `createTimeLockedApproval`. -/
def timeLockResolved (state : GovernanceState) (ref : ℕ) (envelope : TimeLockEnvelope) :
    GovernanceState :=
  if ref ∈ state.timeLocks then
    { state with
      approvals := state.approvals.modify ref fun approval =>
        { approval with timeLockEnvelope := some envelope, status := .PENDING }
      timeLocks := state.timeLocks.erase ref }
  else state

structure SubmitResult where
  status : JSString
  approvalsRemaining : ℚ
  aggregated : Option Bls.AggregatedApproval

/-- The approval object of an id. -/
def lookupApproval (state : GovernanceState) (approvalId : JSString) :
    Option (ℕ × PendingApproval) := do
  let ref ← state.pendingApprovals.get approvalId
  let approval ← state.approvals[ref]?
  return (ref, approval)

/-- The signed text of an approval. -/
def approvalMessage (approval : PendingApproval) : Bytes :=
  textEncode (approval.transactionHash ++ js ":" ++ approval.approvalId)

/-- The checks of `submitApproval`, up to the identity that signed. -/
def checkSubmission (state : GovernanceState) (approval : PendingApproval) (role : GovernanceRole)
    (ed25519Signature blsSignature : JSString) (clock : ℕ → ℤ) : Except JSError RoleIdentity :=
  if approval.status = .EXPIRED ∧ approval.expiresAt < clock 0 then
    .error (plainError (js "Approval expired"))
  else if approval.status = .APPROVED then .error (plainError (js "Already approved"))
  else
    let msg := approvalMessage approval
    let roleCheck := verifyRoleSignature oracles state role msg ed25519Signature (clock 1)
    if !roleCheck.valid then
      .error (plainError (js "Invalid role signature: " ++
        roleCheck.reason.getD (js "undefined")))
    else
      match roleCheck.identity with
      | none => .error (plainError (js "Role identity not found"))
      | some identity =>
        if oracles.verifyBLSSignature identity.blsPublicKey msg blsSignature then .ok identity
        else .error (plainError (js "Invalid BLS signature"))

/-- `submitApproval`. The new signature stays when the aggregation throws. -/
def submitApproval (state : GovernanceState) (approvalId : JSString) (role : GovernanceRole)
    (ed25519Signature blsSignature : JSString) (clock : ℕ → ℤ) :
    GovernanceState × Except JSError SubmitResult :=
  match lookupApproval state approvalId with
  | none => (state, .error (plainError (js "Approval not found")))
  | some (ref, approval) =>
    match checkSubmission oracles state approval role ed25519Signature blsSignature clock with
    | .error e => (state, .error e)
    | .ok identity =>
      let approval := { approval with
        approvals := approval.approvals.set identity.ed25519PublicKey blsSignature }
      let state' := { state with approvals := state.approvals.set ref approval }
      let remaining : ℚ := max 0 (approval.tier.thresholdCount - (approval.approvals.size : ℚ))
      if remaining = 0 then
        match oracles.aggregateSignatures (approval.approvals.values.zipIdx) with
        | .error e => (state', .error e)
        | .ok aggregated =>
          ({ state with approvals := state.approvals.set ref { approval with status := .APPROVED } },
            .ok ⟨js "APPROVED", 0, some aggregated⟩)
      else (state', .ok ⟨js "PENDING", remaining, none⟩)

/-! ## Circuit breaker -/

/-- The loop of `triggerEmergency`: the keys of the valid approvers. -/
def emergencyApprovers (state : GovernanceState) (triggerReason : JSString) (clock : ℕ → ℤ) :
    List ((GovernanceRole × JSString) × ℕ) → List JSString
  | [] => []
  | ((role, sig), k) :: rest =>
    let msg := textEncode (js "EMERGENCY:" ++ triggerReason ++ js ":" ++ bigintString (clock (2 * k)))
    let result := verifyRoleSignature oracles state role msg sig (clock (2 * k + 1))
    match result.valid, result.identity with
    | true, some identity =>
      identity.ed25519PublicKey :: emergencyApprovers state triggerReason clock rest
    | _, _ => emergencyApprovers state triggerReason clock rest

def triggerEmergency (state : GovernanceState) (triggerReason triggeredBy : JSString)
    (approverSignatures : InsertionMap GovernanceRole JSString) (clock : ℕ → ℤ) :
    GovernanceState × Except JSError EmergencyState :=
  let readings := 2 * approverSignatures.size
  let validApprovers :=
    emergencyApprovers oracles state triggerReason clock approverSignatures.entries.zipIdx
  if validApprovers.length < 2 then
    (state, .error (plainError (js "Emergency requires 2-of-4 approvals, got " ++
      decimal validApprovers.length)))
  else
    let emergency : EmergencyState := {
      isActive := true
      triggeredBy
      triggerReason
      triggeredAt := clock readings
      expiresAt := clock (readings + 1) + 24 * 60 * 60 * 1000
      requiredUnfreezeApprovals := 3
      unfreezeApprovals := validApprovers }
    ({ state with emergencyState := some emergency }, .ok emergency)

/-- The loop of `unfreezeEmergency`, with `unfreezeApprovals`. -/
def unfreezeApprovers (state : GovernanceState) (triggeredAt : ℤ) (clock : ℕ → ℤ) :
    List ((GovernanceRole × JSString) × ℕ) → List JSString → List JSString
  | [], approvers => approvers
  | ((role, sig), k) :: rest, approvers =>
    let msg := textEncode (js "UNFREEZE:" ++ bigintString triggeredAt)
    let result := verifyRoleSignature oracles state role msg sig (clock k)
    match result.valid, result.identity with
    | true, some identity =>
      if identity.ed25519PublicKey ∈ approvers then
        unfreezeApprovers state triggeredAt clock rest approvers
      else unfreezeApprovers state triggeredAt clock rest (approvers ++ [identity.ed25519PublicKey])
    | _, _ => unfreezeApprovers state triggeredAt clock rest approvers

/-- `unfreezeEmergency`. The collected approvers stay when there are too few. -/
def unfreezeEmergency (state : GovernanceState)
    (approverSignatures : InsertionMap GovernanceRole JSString) (clock : ℕ → ℤ) :
    GovernanceState × Except JSError Unit :=
  match state.emergencyState.filter EmergencyState.isActive with
  | none => (state, .error (plainError (js "No active emergency state")))
  | some emergency =>
    let unfreezeApprovals := unfreezeApprovers oracles state emergency.triggeredAt clock
      approverSignatures.entries.zipIdx emergency.unfreezeApprovals
    let emergency := { emergency with unfreezeApprovals }
    if unfreezeApprovals.length < emergency.requiredUnfreezeApprovals then
      ({ state with emergencyState := some emergency },
        .error (plainError (js "Unfreeze requires " ++
          decimal emergency.requiredUnfreezeApprovals ++ js " approvals, got " ++
          decimal unfreezeApprovals.length)))
    else ({ state with emergencyState := some { emergency with isActive := false } }, .ok ())

/-! ## Events -/

/-- The calls on one engine, and the resolution of a time-lock promise. -/
inductive GovernanceEvent where
  | registerRoleIdentity (role : GovernanceRole) (ed25519PublicKey hdPath blsPublicKey : JSString)
  | initiateApproval (transactionHash : JSString) (amountUSD : ℚ) (policyId : JSString)
      (clock : ℕ → ℤ)
  | timeLockResolved (ref : ℕ) (envelope : TimeLockEnvelope)
  | submitApproval (approvalId : JSString) (role : GovernanceRole)
      (ed25519Signature blsSignature : JSString) (clock : ℕ → ℤ)
  | triggerEmergency (triggerReason triggeredBy : JSString)
      (approverSignatures : InsertionMap GovernanceRole JSString) (clock : ℕ → ℤ)
  | unfreezeEmergency (approverSignatures : InsertionMap GovernanceRole JSString) (clock : ℕ → ℤ)

def step (state : GovernanceState) : GovernanceEvent → GovernanceState
  | .registerRoleIdentity role ed25519PublicKey hdPath blsPublicKey =>
    (registerRoleIdentity state role ed25519PublicKey hdPath blsPublicKey).1
  | .initiateApproval transactionHash amountUSD policyId clock =>
    (initiateApproval oracles state transactionHash amountUSD policyId clock).1
  | .timeLockResolved ref envelope => timeLockResolved state ref envelope
  | .submitApproval approvalId role ed25519Signature blsSignature clock =>
    (submitApproval oracles state approvalId role ed25519Signature blsSignature clock).1
  | .triggerEmergency triggerReason triggeredBy approverSignatures clock =>
    (triggerEmergency oracles state triggerReason triggeredBy approverSignatures clock).1
  | .unfreezeEmergency approverSignatures clock =>
    (unfreezeEmergency oracles state approverSignatures clock).1

/-! ## What an accepted call shows -/

variable {oracles}

/-- An identity of another role, or whose key does not check, is passed over. -/
theorem verifyRoleLoop_skip {role : GovernanceRole} {message : Bytes} {signatureHex : JSString}
    {now : ℤ} {e : JSString × RoleIdentity} {rest : List (JSString × RoleIdentity)}
    (h : e.2.role = role → ed25519Check oracles e.1 message signatureHex ≠ .ok true) :
    verifyRoleLoop oracles role message signatureHex now (e :: rest) =
      verifyRoleLoop oracles role message signatureHex now rest := by
  obtain ⟨pubKey, identity⟩ := e
  rw [verifyRoleLoop]
  split
  · rfl
  next hrole =>
    split
    next hcheck => exact absurd hcheck (h (not_not.mp hrole))
    · rfl

theorem verifyRoleLoop_hit {role : GovernanceRole} {message : Bytes} {signatureHex : JSString}
    {now : ℤ} {e : JSString × RoleIdentity} {rest : List (JSString × RoleIdentity)}
    (hrole : e.2.role = role) (hcheck : ed25519Check oracles e.1 message signatureHex = .ok true) :
    verifyRoleLoop oracles role message signatureHex now (e :: rest) =
      if e.2.expired now then ⟨false, none, some (js "Delegation expired")⟩
      else ⟨true, some e.2, none⟩ := by
  obtain ⟨pubKey, identity⟩ := e
  rw [verifyRoleLoop, if_neg (not_not.mpr hrole)]
  simp only [hcheck]

theorem verifyRoleSignature_isSome (state : GovernanceState) (role : GovernanceRole)
    (message : Bytes) (signatureHex : JSString) (now : ℤ) :
    (verifyRoleSignature oracles state role message signatureHex now).valid =
      (verifyRoleSignature oracles state role message signatureHex now).identity.isSome := by
  rw [verifyRoleSignature]
  induction state.roleIdentities.entries with
  | nil => rfl
  | cons e entries ih =>
    by_cases hhit : e.2.role = role ∧ ed25519Check oracles e.1 message signatureHex = .ok true
    · rw [verifyRoleLoop_hit hhit.1 hhit.2]
      split <;> rfl
    · rw [verifyRoleLoop_skip fun hrole hcheck => hhit ⟨hrole, hcheck⟩, ih]

theorem verifyRoleSignature_valid {state : GovernanceState} {role : GovernanceRole}
    {message : Bytes} {signatureHex : JSString} {now : ℤ} {identity : RoleIdentity}
    (h : (verifyRoleSignature oracles state role message signatureHex now).identity =
      some identity) :
    ∃ publicKey, state.roleIdentities.get publicKey = some identity ∧ identity.role = role ∧
      ed25519Check oracles publicKey message signatureHex = .ok true := by
  have hloop : ∀ entries : List (JSString × RoleIdentity),
      (verifyRoleLoop oracles role message signatureHex now entries).identity = some identity →
      ∃ publicKey, (publicKey, identity) ∈ entries ∧ identity.role = role ∧
        ed25519Check oracles publicKey message signatureHex = .ok true := by
    intro entries
    induction entries with
    | nil => intro h; cases h
    | cons e entries ih =>
      intro h
      by_cases hhit : e.2.role = role ∧ ed25519Check oracles e.1 message signatureHex = .ok true
      · rw [verifyRoleLoop_hit hhit.1 hhit.2] at h
        split at h
        · cases h
        · obtain rfl : e.2 = identity := Option.some.inj h
          exact ⟨e.1, List.mem_cons_self, hhit⟩
      · rw [verifyRoleLoop_skip fun hrole hcheck => hhit ⟨hrole, hcheck⟩] at h
        exact (ih h).imp fun _ hkey => hkey.imp_left (List.mem_cons_of_mem e)
  obtain ⟨publicKey, hmem, hrole, hcheck⟩ := hloop _ h
  exact ⟨publicKey, InsertionMap.get_eq_some_iff.mpr hmem, hrole, hcheck⟩

/-- An accepted submission: not yet approved, and both signatures pass. -/
theorem checkSubmission_ok {state : GovernanceState} {approval : PendingApproval}
    {role : GovernanceRole} {ed25519Signature blsSignature : JSString} {clock : ℕ → ℤ}
    {identity : RoleIdentity}
    (h : checkSubmission oracles state approval role ed25519Signature blsSignature clock =
      .ok identity) :
    approval.status ≠ .APPROVED ∧
      (verifyRoleSignature oracles state role (approvalMessage approval) ed25519Signature
        (clock 1)).identity = some identity ∧
      oracles.verifyBLSSignature identity.blsPublicKey (approvalMessage approval) blsSignature := by
  simp only [checkSubmission] at h
  split at h
  · cases h
  split at h
  · cases h
  next happroved =>
    split at h
    · cases h
    split at h
    · cases h
    next other hidentity =>
      split at h
      next hbls =>
        obtain rfl : other = identity := Except.ok.inj h
        exact ⟨happroved, hidentity, hbls⟩
      · cases h

theorem lookupApproval_eq_some {state : GovernanceState} {approvalId : JSString} {ref : ℕ}
    {approval : PendingApproval} (h : lookupApproval state approvalId = some (ref, approval)) :
    state.pendingApprovals.get approvalId = some ref ∧ state.approvals[ref]? = some approval := by
  obtain ⟨ref', href, h⟩ := Option.bind_eq_some_iff.mp h
  obtain ⟨approval', happroval, h⟩ := Option.bind_eq_some_iff.mp h
  obtain ⟨rfl, rfl⟩ := Prod.mk.inj (Option.some.inj h)
  exact ⟨href, happroval⟩

/-- A new approval has no signatures and is neither approved nor expired. -/
theorem initiateApproval_ok {state : GovernanceState} {transactionHash : JSString} {amountUSD : ℚ}
    {policyId : JSString} {clock : ℕ → ℤ} {approval : PendingApproval}
    (h : (initiateApproval oracles state transactionHash amountUSD policyId clock).2 =
      .ok approval) :
    approval.approvals = .empty ∧ approval.status ≠ .APPROVED ∧ approval.status ≠ .EXPIRED := by
  simp only [initiateApproval] at h
  split at h
  · cases h
  split at h
  · cases h
  split at h
  · cases h
  · obtain rfl := Except.ok.inj h
    refine ⟨rfl, ?_⟩
    dsimp only
    split <;> exact ⟨by decide, by decide⟩

/-! ## What a call may write -/

theorem initiateApproval_writes (state : GovernanceState) (transactionHash : JSString)
    (amountUSD : ℚ) (policyId : JSString) (clock : ℕ → ℤ) :
    ∃ pendingApprovals approvals timeLocks,
      (initiateApproval oracles state transactionHash amountUSD policyId clock).1 =
        { state with pendingApprovals, approvals, timeLocks } := by
  rw [initiateApproval]
  split
  · exact ⟨_, _, _, rfl⟩
  · split
    · exact ⟨_, _, _, rfl⟩
    · split <;> exact ⟨_, _, _, rfl⟩

theorem timeLockResolved_writes (state : GovernanceState) (ref : ℕ) (envelope : TimeLockEnvelope) :
    ∃ approvals timeLocks,
      timeLockResolved state ref envelope = { state with approvals, timeLocks } := by
  rw [timeLockResolved]
  split <;> exact ⟨_, _, rfl⟩

theorem submitApproval_writes (state : GovernanceState) (approvalId : JSString)
    (role : GovernanceRole) (ed25519Signature blsSignature : JSString) (clock : ℕ → ℤ) :
    ∃ approvals, (submitApproval oracles state approvalId role ed25519Signature blsSignature
      clock).1 = { state with approvals } := by
  rw [submitApproval]
  split
  · exact ⟨_, rfl⟩
  · split
    · exact ⟨_, rfl⟩
    · dsimp only
      split
      · split <;> exact ⟨_, rfl⟩
      · exact ⟨_, rfl⟩

theorem triggerEmergency_writes (state : GovernanceState) (triggerReason triggeredBy : JSString)
    (approverSignatures : InsertionMap GovernanceRole JSString) (clock : ℕ → ℤ) :
    ∃ emergencyState, (triggerEmergency oracles state triggerReason triggeredBy approverSignatures
      clock).1 = { state with emergencyState } := by
  rw [triggerEmergency]
  dsimp only
  split <;> exact ⟨_, rfl⟩

theorem unfreezeEmergency_writes (state : GovernanceState)
    (approverSignatures : InsertionMap GovernanceRole JSString) (clock : ℕ → ℤ) :
    ∃ emergencyState, (unfreezeEmergency oracles state approverSignatures clock).1 =
      { state with emergencyState } := by
  rw [unfreezeEmergency]
  split
  · exact ⟨_, rfl⟩
  · dsimp only
    split <;> exact ⟨_, rfl⟩

/-! ## What one event does to the approvals -/

/-- The ways in which an event leads to an approval object at a position. -/
inductive ApprovalChange (oracles : GovernanceOracles) (state : GovernanceState) :
    GovernanceEvent → ℕ → PendingApproval → Prop
  | kept {event : GovernanceEvent} {ref : ℕ} {approval : PendingApproval}
      (hold : state.approvals[ref]? = some approval) : ApprovalChange oracles state event ref approval
  | created {transactionHash : JSString} {amountUSD : ℚ} {policyId : JSString} {clock : ℕ → ℤ}
      {approval : PendingApproval}
      (hnew : (initiateApproval oracles state transactionHash amountUSD policyId clock).2 =
        .ok approval) :
      ApprovalChange oracles state (.initiateApproval transactionHash amountUSD policyId clock)
        state.approvals.length approval
  | unlocked {ref : ℕ} {envelope : TimeLockEnvelope} {approval : PendingApproval}
      (hold : state.approvals[ref]? = some approval) (hlock : ref ∈ state.timeLocks) :
      ApprovalChange oracles state (.timeLockResolved ref envelope) ref
        { approval with timeLockEnvelope := some envelope, status := .PENDING }
  | submitted {approvalId : JSString} {role : GovernanceRole}
      {ed25519Signature blsSignature : JSString} {clock : ℕ → ℤ} {ref : ℕ}
      {approval : PendingApproval} {identity : RoleIdentity}
      (hlookup : lookupApproval state approvalId = some (ref, approval))
      (hcheck : checkSubmission oracles state approval role ed25519Signature blsSignature clock =
        .ok identity) :
      ApprovalChange oracles state
        (.submitApproval approvalId role ed25519Signature blsSignature clock) ref
        { approval with
          approvals := approval.approvals.set identity.ed25519PublicKey blsSignature }
  | approved {approvalId : JSString} {role : GovernanceRole}
      {ed25519Signature blsSignature : JSString} {clock : ℕ → ℤ} {ref : ℕ}
      {approval : PendingApproval} {identity : RoleIdentity}
      (hlookup : lookupApproval state approvalId = some (ref, approval))
      (hcheck : checkSubmission oracles state approval role ed25519Signature blsSignature clock =
        .ok identity)
      (hthreshold : approval.tier.thresholdCount ≤
        (approval.approvals.set identity.ed25519PublicKey blsSignature).size) :
      ApprovalChange oracles state
        (.submitApproval approvalId role ed25519Signature blsSignature clock) ref
        { approval with
          approvals := approval.approvals.set identity.ed25519PublicKey blsSignature
          status := .APPROVED }

theorem initiateApproval_approvals {state : GovernanceState} {transactionHash : JSString}
    {amountUSD : ℚ} {policyId : JSString} {clock : ℕ → ℤ} {ref : ℕ} {approval : PendingApproval}
    (h : (initiateApproval oracles state transactionHash amountUSD policyId clock).1.approvals[ref]? =
      some approval) :
    ApprovalChange oracles state (.initiateApproval transactionHash amountUSD policyId clock) ref
      approval := by
  cases hresult : (initiateApproval oracles state transactionHash amountUSD policyId clock).2 with
  | error e =>
    refine .kept ?_
    simp only [initiateApproval] at h hresult
    split at h
    · exact h
    split at h
    · exact h
    split at h
    · exact h
    · simp_all
  | ok new =>
    have happend : (initiateApproval oracles state transactionHash amountUSD policyId clock).1.approvals
        = state.approvals ++ [new] := by
      simp only [initiateApproval] at hresult ⊢
      split at hresult
      · cases hresult
      split at hresult
      · cases hresult
      split at hresult
      · cases hresult
      · obtain rfl := Except.ok.inj hresult
        simp_all
    rw [happend] at h
    rcases Runs.getElem?_concat_eq_some h with hold | ⟨rfl, rfl⟩
    · exact .kept hold
    · exact .created hresult

theorem timeLockResolved_approvals {state : GovernanceState} {ref ref' : ℕ}
    {envelope : TimeLockEnvelope} {approval : PendingApproval}
    (h : (timeLockResolved state ref envelope).approvals[ref']? = some approval) :
    ApprovalChange oracles state (.timeLockResolved ref envelope) ref' approval := by
  rw [timeLockResolved] at h
  split at h
  next hlock =>
    simp only [List.getElem?_modify] at h
    obtain ⟨old, hold, hval⟩ := Option.map_eq_some_iff.mp h
    split at hval
    next heq =>
      subst heq hval
      exact .unlocked hold hlock
    next => exact .kept (hval ▸ hold)
  · exact .kept h

theorem submitApproval_approvals {state : GovernanceState} {approvalId : JSString}
    {role : GovernanceRole} {ed25519Signature blsSignature : JSString} {clock : ℕ → ℤ} {ref' : ℕ}
    {approval' : PendingApproval}
    (h : (submitApproval oracles state approvalId role ed25519Signature blsSignature
      clock).1.approvals[ref']? = some approval') :
    ApprovalChange oracles state
      (.submitApproval approvalId role ed25519Signature blsSignature clock) ref' approval' := by
  simp only [submitApproval] at h
  split at h
  · exact .kept h
  next ref approval hlookup =>
    split at h
    · exact .kept h
    next identity hcheck =>
      have hset : ∀ new : PendingApproval, (state.approvals.set ref new)[ref']? = some approval' →
          ApprovalChange oracles state
            (.submitApproval approvalId role ed25519Signature blsSignature clock) ref new →
          ApprovalChange oracles state
            (.submitApproval approvalId role ed25519Signature blsSignature clock) ref' approval' := by
        intro new hnew hchange
        rcases Runs.getElem?_set_eq_some hnew with ⟨rfl, rfl⟩ | ⟨-, hold⟩
        · exact hchange
        · exact .kept hold
      split at h
      next hremaining =>
        split at h
        · exact hset _ h (.submitted hlookup hcheck)
        · refine hset _ h (.approved hlookup hcheck ?_)
          have hle := le_max_right (0 : ℚ) (approval.tier.thresholdCount -
            ((approval.approvals.set identity.ed25519PublicKey blsSignature).size : ℚ))
          rw [hremaining] at hle
          exact sub_nonpos.mp hle
      · exact hset _ h (.submitted hlookup hcheck)

/-- **One event.** Every approval object after an event came about in one of the ways
of `ApprovalChange`. -/
theorem step_approvals {state : GovernanceState} {event : GovernanceEvent} {ref : ℕ}
    {approval : PendingApproval} (h : (step oracles state event).approvals[ref]? = some approval) :
    ApprovalChange oracles state event ref approval := by
  cases event with
  | registerRoleIdentity => exact .kept h
  | initiateApproval => exact initiateApproval_approvals h
  | timeLockResolved => exact timeLockResolved_approvals h
  | submitApproval => exact submitApproval_approvals h
  | triggerEmergency =>
    obtain ⟨emergencyState, hwrites⟩ := triggerEmergency_writes state _ _ _ _
    rw [step, hwrites] at h
    exact .kept h
  | unfreezeEmergency =>
    obtain ⟨emergencyState, hwrites⟩ := unfreezeEmergency_writes state _ _
    rw [step, hwrites] at h
    exact .kept h

end BioFire.Governance
