import BioFire.AuditChain
import BioFire.CreationIds

/-!
# The audit log of a governance engine (`src/lib/governance/governance_engine.ts`)

Every call that succeeds appends one entry to the audit chain, under the actor `GOVERNANCE`;
a call that throws and the end of a time lock append none. The chain is shared: other parts
append between the calls, under their own actors.

* `replayFreeze`: the freeze that a reader of the log sees;
* `LogTells`: what the log and the engine have in common;
* `audit_replays_engine`: after every run, the log tells the freeze, and the completion of
  every approved approval.
-/

namespace BioFire.Governance

open AuditChain Runs

/-- The action and the details of an entry. -/
abbrev Record := JSString × JSString

/-! ## Entries -/

def completedDetails (approvalId : JSString) (uniqueApprovals : ℕ) : JSString :=
  js "Approval " ++ approvalId ++ js " APPROVED with " ++ decimal uniqueApprovals ++
    js " signatures"

def emergencyDetails (triggerReason triggeredBy : JSString) : JSString :=
  js "EMERGENCY: " ++ triggerReason ++ js " by " ++ triggeredBy ++
    js ". Outbound transactions FROZEN."

/-- `requiredRoles.join(',')` -/
def joinRoles (roles : List GovernanceRole) : JSString :=
  (js ",").intercalate (roles.map GovernanceRole.text)

section Step

variable (oracles : GovernanceOracles) (ed25519Sign : Bytes → Bytes → Except JSError Bytes)
  (masterPolicyKey : SecureBuffer) (toISOString : JSNumber → Option JSString)

/-- The entry of `submitApproval`, for an approval with its new signature. -/
def submissionRecord (approvalId : JSString) (approval : PendingApproval)
    (result : SubmitResult) : Record :=
  if result.approvalsRemaining = 0 then
    (js "APPROVAL_COMPLETED", completedDetails approvalId approval.approvals.size)
  else
    (js "APPROVAL_RECEIVED", js "Approval " ++ approvalId ++ js ": " ++
      decimal approval.approvals.size ++ js "/" ++
      oracles.numberString approval.tier.thresholdCount ++ js " signatures")

/-- What a call on the engine appends. -/
def governanceRecords (state : GovernanceState) : GovernanceEvent → List Record
  | .registerRoleIdentity role _ hdPath _ =>
    [(js "ROLE_REGISTERED", js "Role " ++ role.text ++ js " registered with HD path " ++ hdPath)]
  | .initiateApproval transactionHash amountUSD policyId clock =>
    match (initiateApproval oracles state transactionHash amountUSD policyId clock).2 with
    | .error _ => []
    | .ok approval =>
      [(js "APPROVAL_INITIATED", js "Approval " ++ approval.approvalId ++ js " for $" ++
        oracles.numberString amountUSD ++ js " requires " ++
        oracles.numberString approval.tier.thresholdCount ++ js " approvals from [" ++
        joinRoles approval.tier.requiredRoles ++ js "]")]
  | .timeLockResolved _ _ => []
  | .submitApproval approvalId role ed25519Signature blsSignature clock =>
    match submitApproval oracles state approvalId role ed25519Signature blsSignature clock with
    | (_, .error _) => []
    | (state', .ok result) =>
      match lookupApproval state' approvalId with
      | none => []
      | some (_, approval) => [submissionRecord oracles approvalId approval result]
  | .triggerEmergency triggerReason triggeredBy approverSignatures clock =>
    match (triggerEmergency oracles state triggerReason triggeredBy approverSignatures clock).2 with
    | .error _ => []
    | .ok _ => [(js "EMERGENCY_TRIGGERED", emergencyDetails triggerReason triggeredBy)]
  | .unfreezeEmergency approverSignatures clock =>
    match unfreezeEmergency oracles state approverSignatures clock with
    | (_, .error _) => []
    | (state', .ok ()) =>
      let approvalCount := (state'.emergencyState.map fun e => e.unfreezeApprovals.length).getD 0
      [(js "EMERGENCY_UNFROZEN", js "Emergency unfreezed with " ++ decimal approvalCount ++
        js " approvals")]

/-- What a call appends. `toISOString` throws on a time outside the range of dates, after the
token is stored. -/
def records (state : CreationState) : CreationEvent → List Record
  | .createPolicy approverSignatures tiers circuitBreakerRules clock =>
    match (createPolicy oracles ed25519Sign masterPolicyKey state.engine approverSignatures tiers
        circuitBreakerRules clock).2 with
    | .error _ => []
    | .ok policy =>
      [(js "POLICY_CREATED", js "Policy " ++ policy.policyId ++ js " v" ++
        decimal policy.version ++ js " created with " ++
        decimal (approvalCount oracles state.engine approverSignatures clock) ++ js " approvals")]
  | .createDelegation call =>
    match (createDelegation oracles.sha256 ed25519Sign state.delegations call).2 with
    | .error _ => []
    | .ok token =>
      match toISOString token.notAfter with
      | none => []
      | some expiry =>
        [(js "DELEGATION_CREATED", js "Delegation " ++ token.tokenId ++ js " from " ++
          token.delegatorRole.text ++ js " to " ++ token.delegateePublicKey.take 20 ++
          js "... expires " ++ expiry)]
  | .governance event => governanceRecords oracles state.engine event

/-- An engine and the audit chain. -/
structure AuditedEngine where
  state : CreationState
  audit : AuditState

/-- The entry of a call on the engine. -/
def governanceCall (timestamp : JSString) (record : Record) : AppendCall :=
  ⟨record.1, js "GOVERNANCE", record.2, none, timestamp⟩

/-- A call of `appendLog` by another part. -/
structure OtherAppend where
  call : AppendCall
  actor_ne : call.actor ≠ js "GOVERNANCE"

inductive AuditedEvent where
  /-- A call on the engine, and the time at which its entry is made. -/
  | engine (event : CreationEvent) (timestamp : JSString)
  | other (append : OtherAppend)

def auditedStep (s : AuditedEngine) : AuditedEvent → AuditedEngine
  | .engine event timestamp =>
    { state := creationStep oracles ed25519Sign masterPolicyKey s.state event
      audit := run (appendLog oracles.sha256) s.audit
        ((records oracles ed25519Sign masterPolicyKey toISOString s.state event).map
          (governanceCall timestamp)) }
  | .other append => { s with audit := appendLog oracles.sha256 s.audit append.call }

end Step

/-! ## Reading the log -/

/-- The records of the engine among the calls. -/
def governanceRecordsOf (calls : List AppendCall) : List Record :=
  (calls.filter fun call => call.actor = js "GOVERNANCE").map fun call =>
    (call.action, call.details)

/-- The entries of the engine. -/
def governanceLog (chain : List AuditEntry) : List Record :=
  governanceRecordsOf (chain.map AuditEntry.call)

/-- The freeze after one more entry. -/
def replayStep (freeze : Option JSString) (record : Record) : Option JSString :=
  if record.1 = js "EMERGENCY_TRIGGERED" then some record.2
  else if record.1 = js "EMERGENCY_UNFROZEN" then none
  else freeze

/-- The details of the emergency that is in force after these entries. -/
def replayFreeze (log : List Record) : Option JSString := log.foldl replayStep none

/-- The emergency that is in force, as the log describes it. -/
def freezeOf (state : GovernanceState) : Option JSString :=
  (state.emergencyState.filter EmergencyState.isActive).map fun emergency =>
    emergencyDetails emergency.triggerReason emergency.triggeredBy

/-! ## The chain -/

theorem governanceRecordsOf_append (calls calls' : List AppendCall) :
    governanceRecordsOf (calls ++ calls') =
      governanceRecordsOf calls ++ governanceRecordsOf calls' := by
  rw [governanceRecordsOf, List.filter_append, List.map_append]
  rfl

theorem governanceRecordsOf_records (timestamp : JSString) (log : List Record) :
    governanceRecordsOf (log.map (governanceCall timestamp)) = log := by
  induction log with
  | nil => rfl
  | cons record log ih => exact congrArg (record :: ·) ih

theorem governanceLog_run (sha256 : Bytes → Digest) (audit : AuditState)
    (calls : List AppendCall) :
    governanceLog (run (appendLog sha256) audit calls).memoryChain =
      governanceLog audit.memoryChain ++ governanceRecordsOf calls := by
  rw [governanceLog, calls_run, governanceRecordsOf_append]
  rfl

/-! ## The freeze -/

variable {oracles : GovernanceOracles} {ed25519Sign : Bytes → Bytes → Except JSError Bytes}
  {masterPolicyKey : SecureBuffer} {toISOString : JSNumber → Option JSString}

theorem freezeOf_congr {state state' : GovernanceState}
    (h : state'.emergencyState = state.emergencyState) : freezeOf state' = freezeOf state := by
  rw [freezeOf, freezeOf, h]

/-- The actions that a reader of the freeze passes over. -/
def otherActions : List JSString :=
  [js "ROLE_REGISTERED", js "POLICY_CREATED", js "APPROVAL_INITIATED", js "APPROVAL_RECEIVED",
    js "APPROVAL_COMPLETED", js "DELEGATION_CREATED"]

theorem replay_other {log : List Record} (h : ∀ record ∈ log, record.1 ∈ otherActions)
    (freeze : Option JSString) : log.foldl replayStep freeze = freeze := by
  have hnone : ∀ action ∈ otherActions,
      action ≠ js "EMERGENCY_TRIGGERED" ∧ action ≠ js "EMERGENCY_UNFROZEN" := by decide
  induction log with
  | nil => rfl
  | cons record log ih =>
    obtain ⟨htrigger, hunfreeze⟩ := hnone record.1 (h record List.mem_cons_self)
    rw [List.foldl_cons, replayStep, if_neg htrigger, if_neg hunfreeze]
    exact ih fun record' hmem => h record' (List.mem_cons_of_mem _ hmem)

theorem other_singleton {action details : JSString} (h : action ∈ otherActions) :
    ∀ record ∈ [(action, details)], record.1 ∈ otherActions := by
  simp [h]

theorem other_nil : ∀ record ∈ ([] : List Record), record.1 ∈ otherActions := by simp

theorem other_records (state : GovernanceState) {event : GovernanceEvent}
    (htrigger : ∀ triggerReason triggeredBy approverSignatures clock,
      event ≠ .triggerEmergency triggerReason triggeredBy approverSignatures clock)
    (hunfreeze : ∀ approverSignatures clock, event ≠ .unfreezeEmergency approverSignatures clock) :
    ∀ record ∈ governanceRecords oracles state event, record.1 ∈ otherActions := by
  cases event with
  | registerRoleIdentity => exact other_singleton (by decide)
  | initiateApproval =>
    rw [governanceRecords]
    split
    · exact other_nil
    · exact other_singleton (by decide)
  | timeLockResolved => exact other_nil
  | submitApproval =>
    rw [governanceRecords]
    split
    · exact other_nil
    · split
      · exact other_nil
      · rw [submissionRecord]
        split
        · exact other_singleton (by decide)
        · exact other_singleton (by decide)
  | triggerEmergency => exact absurd rfl (htrigger _ _ _ _)
  | unfreezeEmergency => exact absurd rfl (hunfreeze _ _)

theorem freezeOf_step (state : GovernanceState) (event : GovernanceEvent) :
    freezeOf (step oracles state event) =
      (governanceRecords oracles state event).foldl replayStep (freezeOf state) := by
  cases event with
  | registerRoleIdentity =>
    rw [replay_other (other_records state (by simp) (by simp))]
    rfl
  | initiateApproval transactionHash amountUSD policyId clock =>
    obtain ⟨_, _, _, hwrites⟩ :=
      @initiateApproval_writes oracles state transactionHash amountUSD policyId clock
    rw [replay_other (other_records state (by simp) (by simp)), step, hwrites]
    rfl
  | timeLockResolved ref envelope =>
    obtain ⟨_, _, hwrites⟩ := timeLockResolved_writes state ref envelope
    rw [replay_other (other_records state (by simp) (by simp)), step, hwrites]
    rfl
  | submitApproval approvalId role ed25519Signature blsSignature clock =>
    obtain ⟨_, hwrites⟩ := @submitApproval_writes oracles state approvalId role
      ed25519Signature blsSignature clock
    rw [replay_other (other_records state (by simp) (by simp)), step, hwrites]
    rfl
  | triggerEmergency triggerReason triggeredBy approverSignatures clock =>
    rw [step, governanceRecords, triggerEmergency]
    dsimp only
    split
    · rfl
    · rfl
  | unfreezeEmergency approverSignatures clock =>
    rw [step, governanceRecords, unfreezeEmergency]
    cases hactive : state.emergencyState.filter EmergencyState.isActive with
    | none => rfl
    | some emergency =>
      obtain ⟨hsome, hisActive⟩ := Option.filter_eq_some_iff.mp hactive
      dsimp only
      split
      · simp [freezeOf, hsome, Option.filter, hisActive]
      · rfl

theorem freezeOf_creationStep (state : CreationState) (event : CreationEvent) :
    freezeOf (creationStep oracles ed25519Sign masterPolicyKey state event).engine =
      (records oracles ed25519Sign masterPolicyKey toISOString state event).foldl replayStep
        (freezeOf state.engine) := by
  cases event with
  | createPolicy approverSignatures tiers circuitBreakerRules clock =>
    have hsame : (createPolicy oracles ed25519Sign masterPolicyKey state.engine approverSignatures
        tiers circuitBreakerRules clock).1.emergencyState = state.engine.emergencyState := by
      rcases createPolicy_cases oracles ed25519Sign masterPolicyKey state.engine
        approverSignatures tiers circuitBreakerRules clock with ⟨-, hsame⟩ | ⟨_, -, hnew, -⟩
      · rw [hsame]
      · rw [hnew]
    rw [creationStep, freezeOf_congr hsame, records]
    split
    · rfl
    · exact (replay_other (other_singleton (by decide)) _).symm
  | createDelegation call =>
    rw [creationStep, records]
    split
    · rfl
    · split
      · rfl
      · exact (replay_other (other_singleton (by decide)) _).symm
  | governance event => exact freezeOf_step state.engine event

/-! ## Approvals -/

/-- The ids of the approvals are the keys of their map. -/
def IdsAreKeys (state : GovernanceState) : Prop :=
  ∀ approvalId ref, state.pendingApprovals.get approvalId = some ref →
    (state.approvals.map PendingApproval.approvalId)[ref]? = some approvalId

theorem step_ids (state : GovernanceState) (event : GovernanceEvent) :
    (step oracles state event).pendingApprovals = state.pendingApprovals ∧
        (step oracles state event).approvals.map PendingApproval.approvalId =
          state.approvals.map PendingApproval.approvalId ∨
      ∃ approvalId, (step oracles state event).pendingApprovals =
          state.pendingApprovals.set approvalId state.approvals.length ∧
        (step oracles state event).approvals.map PendingApproval.approvalId =
          state.approvals.map PendingApproval.approvalId ++ [approvalId] := by
  cases event with
  | registerRoleIdentity => exact Or.inl ⟨rfl, rfl⟩
  | initiateApproval transactionHash amountUSD policyId clock =>
    rw [step, initiateApproval]
    split
    · exact Or.inl ⟨rfl, rfl⟩
    split
    · exact Or.inl ⟨rfl, rfl⟩
    split
    · exact Or.inl ⟨rfl, rfl⟩
    · exact Or.inr ⟨_, rfl, List.map_append⟩
  | timeLockResolved ref envelope =>
    rw [step, timeLockResolved]
    split
    · exact Or.inl ⟨rfl, map_modify_eq (by intro _; rfl) _ ref⟩
    · exact Or.inl ⟨rfl, rfl⟩
  | submitApproval approvalId role ed25519Signature blsSignature clock =>
    rw [step, submitApproval]
    cases hlookup : lookupApproval state approvalId with
    | none => exact Or.inl ⟨rfl, rfl⟩
    | some found =>
      obtain ⟨ref, approval⟩ := found
      have hget := (lookupApproval_eq_some hlookup).2
      dsimp only
      split
      · exact Or.inl ⟨rfl, rfl⟩
      · split
        · split
          · exact Or.inl ⟨rfl, map_set_eq hget rfl⟩
          · exact Or.inl ⟨rfl, map_set_eq hget rfl⟩
        · exact Or.inl ⟨rfl, map_set_eq hget rfl⟩
  | triggerEmergency triggerReason triggeredBy approverSignatures clock =>
    obtain ⟨_, hwrites⟩ := @triggerEmergency_writes oracles state triggerReason
      triggeredBy approverSignatures clock
    rw [step, hwrites]
    exact Or.inl ⟨rfl, rfl⟩
  | unfreezeEmergency approverSignatures clock =>
    obtain ⟨_, hwrites⟩ := @unfreezeEmergency_writes oracles state
      approverSignatures clock
    rw [step, hwrites]
    exact Or.inl ⟨rfl, rfl⟩

theorem idsAreKeys_step {state : GovernanceState} (h : IdsAreKeys state)
    (event : GovernanceEvent) : IdsAreKeys (step oracles state event) := by
  intro approvalId ref hget
  rcases @step_ids oracles state event with ⟨hpending, hids⟩ | ⟨new, hpending, hids⟩
  · rw [hpending] at hget
    rw [hids]
    exact h approvalId ref hget
  · rw [hpending, InsertionMap.get_set] at hget
    rw [hids]
    split at hget
    next heq =>
      cases hget
      rw [heq, ← List.length_map (f := PendingApproval.approvalId), List.getElem?_concat_length]
    next =>
      have hold := h approvalId ref hget
      rw [List.getElem?_append_left (List.getElem?_eq_some_iff.mp hold).1, hold]

/-- The entry of a completed approval. -/
def completedRecord (approval : PendingApproval) : Record :=
  (js "APPROVAL_COMPLETED", completedDetails approval.approvalId approval.approvals.size)

theorem submitted_records {state : GovernanceState} (h : IdsAreKeys state) {approvalId : JSString}
    {role : GovernanceRole} {ed25519Signature blsSignature : JSString} {clock : ℕ → ℤ} {ref : ℕ}
    {approval : PendingApproval} {identity : RoleIdentity}
    (hlookup : lookupApproval state approvalId = some (ref, approval))
    (hcheck : checkSubmission oracles state approval role ed25519Signature blsSignature clock =
      .ok identity)
    (hthreshold : approval.tier.thresholdCount ≤
      (approval.approvals.set identity.ed25519PublicKey blsSignature).size)
    (happroved : ((submitApproval oracles state approvalId role ed25519Signature blsSignature
      clock).1.approvals.map PendingApproval.status)[ref]? = some .APPROVED) :
    completedRecord { approval with
        approvals := approval.approvals.set identity.ed25519PublicKey blsSignature
        status := .APPROVED } ∈
      governanceRecords oracles state
        (.submitApproval approvalId role ed25519Signature blsSignature clock) := by
  obtain ⟨hkey, hget⟩ := lookupApproval_eq_some hlookup
  have hlt := (List.getElem?_eq_some_iff.mp hget).1
  have hid : approval.approvalId = approvalId := by
    have := h approvalId ref hkey
    rw [List.getElem?_map, hget] at this
    exact Option.some.inj this
  have hremaining : max 0 (approval.tier.thresholdCount -
      ((approval.approvals.set identity.ed25519PublicKey blsSignature).size : ℚ)) = 0 :=
    max_eq_left (by linarith)
  rw [governanceRecords]
  rw [submitApproval, hlookup] at happroved ⊢
  dsimp only at happroved ⊢
  rw [hcheck] at happroved ⊢
  dsimp only at happroved ⊢
  rw [if_pos hremaining] at happroved ⊢
  cases haggregate : oracles.aggregateSignatures
      (approval.approvals.set identity.ed25519PublicKey blsSignature).values.zipIdx with
  | error e =>
    rw [haggregate] at happroved
    rw [List.map_set, List.getElem?_set_self (by simpa using hlt)] at happroved
    exact absurd (Option.some.inj happroved) (checkSubmission_ok hcheck).1
  | ok aggregated =>
    simp [lookupApproval, hkey, hlt, submissionRecord, completedRecord, hid]

/-- **One event.** An approval is approved already, or its completion is recorded. -/
theorem approved_step {state : GovernanceState} (h : IdsAreKeys state) {event : GovernanceEvent}
    {ref : ℕ} {approval : PendingApproval}
    (hget : (step oracles state event).approvals[ref]? = some approval)
    (happroved : approval.status = .APPROVED) :
    state.approvals[ref]? = some approval ∨
      completedRecord approval ∈ governanceRecords oracles state event := by
  have hstatus : ((step oracles state event).approvals.map PendingApproval.status)[ref]? =
      some .APPROVED := by
    rw [List.getElem?_map, hget, ← happroved]
    rfl
  cases step_approvals hget with
  | kept hold => exact Or.inl hold
  | created hnew => exact absurd happroved (initiateApproval_ok hnew).2.1
  | unlocked hold hlock => cases happroved
  | submitted hlookup hcheck => exact absurd happroved (checkSubmission_ok hcheck).1
  | approved hlookup hcheck hthreshold =>
    exact Or.inr (submitted_records h hlookup hcheck hthreshold hstatus)

/-! ## Runs -/

/-- The log of an engine tells its freeze and its completed approvals. -/
structure LogTells (log : List Record) (state : GovernanceState) : Prop where
  freeze : replayFreeze log = freezeOf state
  ids : IdsAreKeys state
  completed : ∀ approval ∈ state.approvals, approval.status = .APPROVED →
    completedRecord approval ∈ log

theorem logTells_new : LogTells [] (newEngine .empty) where
  freeze := rfl
  ids approvalId ref hget := by cases hget
  completed approval hmem := by cases hmem

theorem createPolicy_approvals (state : GovernanceState)
    (approverSignatures : InsertionMap GovernanceRole JSString) (tiers : List ApprovalTier)
    (circuitBreakerRules : List CircuitBreakerRule) (clock : ℕ → ℤ) :
    let state' := (createPolicy oracles ed25519Sign masterPolicyKey state approverSignatures tiers
      circuitBreakerRules clock).1
    state'.pendingApprovals = state.pendingApprovals ∧ state'.approvals = state.approvals := by
  rcases createPolicy_cases oracles ed25519Sign masterPolicyKey state approverSignatures tiers
    circuitBreakerRules clock with ⟨-, hsame⟩ | ⟨_, -, hnew, -⟩
  · simp [hsame]
  · simp [hnew]

/-- **Step.** The records of an event tell what it does. -/
theorem LogTells.step {log : List Record} {state : CreationState} (h : LogTells log state.engine)
    (event : CreationEvent) :
    LogTells (log ++ records oracles ed25519Sign masterPolicyKey toISOString state event)
      (creationStep oracles ed25519Sign masterPolicyKey state event).engine where
  freeze := by
    rw [freezeOf_creationStep, replayFreeze, List.foldl_append, ← h.freeze, replayFreeze]
  ids := by
    cases event with
    | createPolicy approverSignatures tiers circuitBreakerRules clock =>
      obtain ⟨hpending, happrovals⟩ := @createPolicy_approvals oracles ed25519Sign masterPolicyKey
        state.engine approverSignatures tiers circuitBreakerRules clock
      rw [creationStep, IdsAreKeys, hpending, happrovals]
      exact h.ids
    | createDelegation call => exact h.ids
    | governance event => exact idsAreKeys_step h.ids event
  completed := by
    intro approval hmem happroved
    rw [List.mem_append]
    cases event with
    | createPolicy approverSignatures tiers circuitBreakerRules clock =>
      obtain ⟨-, happrovals⟩ := @createPolicy_approvals oracles ed25519Sign masterPolicyKey
        state.engine approverSignatures tiers circuitBreakerRules clock
      rw [creationStep, happrovals] at hmem
      exact Or.inl (h.completed approval hmem happroved)
    | createDelegation call => exact Or.inl (h.completed approval hmem happroved)
    | governance event =>
      obtain ⟨ref, hget⟩ := List.mem_iff_getElem?.mp hmem
      rcases approved_step h.ids hget happroved with hold | hnew
      · exact Or.inl (h.completed approval (List.mem_of_getElem? hold) happroved)
      · exact Or.inr hnew

theorem initiateApproval_frozen {state : GovernanceState} {details : JSString}
    (h : freezeOf state = some details) (transactionHash : JSString) (amountUSD : ℚ)
    (policyId : JSString) (clock : ℕ → ℤ) :
    ∃ e, (initiateApproval oracles state transactionHash amountUSD policyId clock).2 = .error e := by
  obtain ⟨emergency, hactive, -⟩ := Option.map_eq_some_iff.mp h
  rw [initiateApproval]
  split
  · exact ⟨_, rfl⟩
  split
  · exact ⟨_, rfl⟩
  split
  · exact ⟨_, rfl⟩
  next hnone => rw [hactive] at hnone; cases hnone

/-- The log since the engine was made tells its state, and the chain has stayed intact. -/
def Tells (sha256 : Bytes → Digest) (audit : AuditState) (s : AuditedEngine) : Prop :=
  ∃ log, governanceLog s.audit.memoryChain = governanceLog audit.memoryChain ++ log ∧
    LogTells log s.state.engine ∧
    (Intact sha256 audit.memoryChain → Intact sha256 s.audit.memoryChain)

theorem tells_step {audit : AuditState} {s : AuditedEngine} (h : Tells oracles.sha256 audit s)
    (event : AuditedEvent) :
    Tells oracles.sha256 audit
      (auditedStep oracles ed25519Sign masterPolicyKey toISOString s event) := by
  obtain ⟨log, hlog, htells, hintact⟩ := h
  cases event with
  | engine event timestamp =>
    refine ⟨log ++ records oracles ed25519Sign masterPolicyKey toISOString s.state event, ?_,
      htells.step event, fun h => (hintact h).run _⟩
    rw [auditedStep, governanceLog_run, governanceRecordsOf_records, hlog, List.append_assoc]
  | other append =>
    refine ⟨log, ?_, htells, fun h => (hintact h).appendLog _⟩
    have hother : governanceRecordsOf [append.call] = [] := by
      simp [governanceRecordsOf, append.actor_ne]
    have hrun := governanceLog_run oracles.sha256 s.audit [append.call]
    rw [hother, List.append_nil] at hrun
    rw [auditedStep, ← hlog, ← hrun]
    rfl

/-- **Runs.** Whatever the calls and whoever else appends between them, the entries of the
engine tell the freeze that is in force, a freeze under which no approval starts, and the
completion of every approved approval; the chain stays valid. -/
theorem audit_replays_engine (oracles : GovernanceOracles)
    (ed25519Sign : Bytes → Bytes → Except JSError Bytes) (masterPolicyKey : SecureBuffer)
    (toISOString : JSNumber → Option JSString) (audit : AuditState) (events : List AuditedEvent) :
    let final := run (auditedStep oracles ed25519Sign masterPolicyKey toISOString)
      ⟨newCreationState, audit⟩ events
    ∃ log, governanceLog final.audit.memoryChain = governanceLog audit.memoryChain ++ log ∧
      replayFreeze log = freezeOf final.state.engine ∧
      (∀ details, replayFreeze log = some details →
        ∀ transactionHash amountUSD policyId clock, ∃ e, (initiateApproval oracles
          final.state.engine transactionHash amountUSD policyId clock).2 = .error e) ∧
      (∀ approval ∈ final.state.engine.approvals, approval.status = .APPROVED →
        completedRecord approval ∈ log) ∧
      ((verifyChainIntegrity oracles.sha256 audit.memoryChain).isValid = true →
        (verifyChainIntegrity oracles.sha256 final.audit.memoryChain).isValid = true) := by
  intro final
  have hstart : Tells oracles.sha256 audit ⟨newCreationState, audit⟩ :=
    ⟨[], (List.append_nil _).symm, logTells_new, id⟩
  obtain ⟨log, hlog, htells, hintact⟩ := run_invariant (Tells oracles.sha256 audit) hstart
    (fun s event h => @tells_step oracles ed25519Sign masterPolicyKey toISOString audit s h event)
    events
  refine ⟨log, hlog, htells.freeze, ?_, htells.completed, ?_⟩
  · intro details hdetails
    exact initiateApproval_frozen (htells.freeze.symm.trans hdetails)
  · rw [isValid_iff_intact, isValid_iff_intact]
    exact hintact

end BioFire.Governance
