import BioFire.Delegation
import BioFire.SignedMessage

/-!
# The ids of new records (`src/lib/governance/governance_engine.ts`)

Runs of `createPolicy`, `initiateApproval` and `createDelegation`, with the other calls between
them. Each of the three stores its record under the hash of a text that ends with a reading of
the clock.

* `mem_keysOf_step`: one event adds the id of the record that it stores;
* `hashedBytes_reading`: the hashed bytes fix the reading;
* `creation_keeps_records_iff`: nothing is overwritten exactly when no text is hashed twice and
  no two digests agree in the 16 bytes that an id shows.
-/

namespace BioFire.Governance

open Runs

/-- The engine with the map of `createDelegation`. -/
structure CreationState where
  engine : GovernanceState
  delegations : InsertionMap JSString DelegationToken

def newCreationState : CreationState := ⟨newEngine .empty, .empty⟩

inductive CreationEvent where
  | createPolicy (approverSignatures : InsertionMap GovernanceRole JSString)
      (tiers : List ApprovalTier) (circuitBreakerRules : List CircuitBreakerRule) (clock : ℕ → ℤ)
  | createDelegation (call : DelegationCall)
  /-- `initiateApproval` and the calls that create no record. -/
  | governance (event : GovernanceEvent)

section Step

variable (oracles : GovernanceOracles) (ed25519Sign : Bytes → Bytes → Except JSError Bytes)
  (masterPolicyKey : SecureBuffer)

def creationStep (state : CreationState) : CreationEvent → CreationState
  | .createPolicy approverSignatures tiers circuitBreakerRules clock =>
    { state with engine := (createPolicy oracles ed25519Sign masterPolicyKey state.engine
        approverSignatures tiers circuitBreakerRules clock).1 }
  | .createDelegation call =>
    { state with
      delegations := (createDelegation oracles.sha256 ed25519Sign state.delegations call).1 }
  | .governance event => { state with engine := step oracles state.engine event }

/-! ## Ids -/

inductive RecordKind where
  | policy | approval | delegation
  deriving DecidableEq

/-- The id of a record whose text has these bytes. -/
def recordId (bytes : Bytes) : JSString :=
  js "0x" ++ (bytesToHex (oracles.sha256 bytes).1).take 32

/-- The text that the id of the new record hashes, and the clock reading at its end. -/
def hashedText : CreationEvent → Option (RecordKind × JSString × ℤ)
  | .createPolicy approverSignatures tiers _ clock =>
    some (.policy, (Json.array (tiers.map ApprovalTier.toJson)).stringify,
      clock (2 * approverSignatures.size))
  | .createDelegation call =>
    some (.delegation, call.delegatorRole.text ++ js ":" ++ call.delegateePublicKey ++ js ":",
      call.clock 0)
  | .governance (.initiateApproval transactionHash amountUSD _ clock) =>
    some (.approval, transactionHash ++ js ":" ++ oracles.numberString amountUSD ++ js ":", clock 0)
  | .governance _ => none

/-- The bytes that the id of the new record hashes. -/
def hashedBytes (event : CreationEvent) : Option (RecordKind × Bytes) :=
  (hashedText oracles event).map fun (kind, text, now) =>
    (kind, textEncode (text ++ bigintString now))

/-- The call gets as far as storing its record. -/
def Stores (state : CreationState) : CreationEvent → Prop
  | .createPolicy approverSignatures tiers circuitBreakerRules clock =>
    ∃ policy, (createPolicy oracles ed25519Sign masterPolicyKey state.engine approverSignatures
      tiers circuitBreakerRules clock).2 = .ok policy
  | .createDelegation call =>
    ∃ key signature, call.delegatorPrivateKey.bytes = .ok key ∧
      ed25519Sign (tokenData (call.unsigned oracles.sha256)) key = .ok signature
  | .governance (.initiateApproval transactionHash amountUSD policyId clock) =>
    ∃ approval, (initiateApproval oracles state.engine transactionHash amountUSD policyId clock).2 =
      .ok approval
  | .governance _ => False

def keysOf (state : CreationState) : RecordKind → List JSString
  | .policy => state.engine.policies.keys
  | .approval => state.engine.pendingApprovals.keys
  | .delegation => state.delegations.keys

/-- A record is stored whose text has these bytes. -/
def StoresBytes (e : RecordKind × Bytes) (state : CreationState) (event : CreationEvent) : Prop :=
  hashedBytes oracles event = some e ∧ Stores oracles ed25519Sign masterPolicyKey state event

/-- A record is stored under the id of another one. -/
def Overwrites (state : CreationState) (event : CreationEvent) : Prop :=
  ∃ e, StoresBytes oracles ed25519Sign masterPolicyKey e state event ∧
    recordId oracles e.2 ∈ keysOf state e.1

/-- No two texts of the run have ids that agree in their 32 digits. -/
def NoIdCollision (events : List CreationEvent) : Prop :=
  ∀ event ∈ events, ∀ event' ∈ events, ∀ kind bytes bytes',
    hashedBytes oracles event = some (kind, bytes) →
    hashedBytes oracles event' = some (kind, bytes') →
    recordId oracles bytes = recordId oracles bytes' → bytes = bytes'

/-- The digests of different texts, hashed for stored records of one kind, differ in their first 16
bytes, which an id shows. -/
def DigestsApart (events : List CreationEvent) : Prop :=
  ∀ past event rest, events = past ++ event :: rest → ∀ kind bytes bytes',
    StoresBytes oracles ed25519Sign masterPolicyKey (kind, bytes)
      (run (creationStep oracles ed25519Sign masterPolicyKey) newCreationState past) event →
    Occurs (creationStep oracles ed25519Sign masterPolicyKey) newCreationState past
      (StoresBytes oracles ed25519Sign masterPolicyKey (kind, bytes')) →
    bytes ≠ bytes' → (oracles.sha256 bytes).1.take 16 ≠ (oracles.sha256 bytes').1.take 16

/-- No text is hashed for two stored records of one kind. -/
def FreshTexts (events : List CreationEvent) : Prop :=
  ∀ past event rest, events = past ++ event :: rest → ∀ e,
    StoresBytes oracles ed25519Sign masterPolicyKey e
      (run (creationStep oracles ed25519Sign masterPolicyKey) newCreationState past) event →
    ¬Occurs (creationStep oracles ed25519Sign masterPolicyKey) newCreationState past
      (StoresBytes oracles ed25519Sign masterPolicyKey e)

end Step

/-- The versions of the stored policies. -/
def CreationState.versions (state : CreationState) : List ℕ :=
  state.engine.policies.values.map GovernancePolicy.version

variable {oracles : GovernanceOracles} {ed25519Sign : Bytes → Bytes → Except JSError Bytes}
  {masterPolicyKey : SecureBuffer}

/-! ## What one event stores -/

theorem mem_keys_set_iff {ν : Type} {m : InsertionMap JSString ν} {key id : JSString} {value : ν} :
    id ∈ (m.set key value).keys ↔ id ∈ m.keys ∨ id = key := by
  rw [InsertionMap.mem_keys_set, or_comm]

/-- A call of `createPolicy` changes nothing, or stores the policy it returns with the next
version. -/
theorem createPolicy_cases (oracles : GovernanceOracles)
    (ed25519Sign : Bytes → Bytes → Except JSError Bytes) (masterPolicyKey : SecureBuffer)
    (state : GovernanceState)
    (approverSignatures : InsertionMap GovernanceRole JSString) (tiers : List ApprovalTier)
    (rules : List CircuitBreakerRule) (clock : ℕ → ℤ) :
    let result := createPolicy oracles ed25519Sign masterPolicyKey state approverSignatures tiers
      rules clock
    (∃ e, result.2 = .error e) ∧ result.1 = state ∨
    ∃ policy, result.2 = .ok policy ∧
      result.1 = { state with policies := state.policies.set policy.policyId policy } ∧
      policy.policyId = policyIdOf oracles tiers (clock (2 * approverSignatures.size)) ∧
      policy.version = state.policies.size + 1 := by
  simp only [createPolicy]
  split
  · exact Or.inl ⟨⟨_, rfl⟩, rfl⟩
  · split
    · exact Or.inl ⟨⟨_, rfl⟩, rfl⟩
    · split
      · exact Or.inl ⟨⟨_, rfl⟩, rfl⟩
      · exact Or.inr ⟨_, rfl, rfl, rfl, rfl⟩

theorem createPolicy_keys {state : GovernanceState}
    {approverSignatures : InsertionMap GovernanceRole JSString} {tiers : List ApprovalTier}
    {rules : List CircuitBreakerRule} {clock : ℕ → ℤ} {id : JSString} :
    id ∈ (createPolicy oracles ed25519Sign masterPolicyKey state approverSignatures tiers rules
        clock).1.policies.keys ↔ id ∈ state.policies.keys ∨
      (∃ policy, (createPolicy oracles ed25519Sign masterPolicyKey state approverSignatures tiers
        rules clock).2 = .ok policy) ∧
        id = policyIdOf oracles tiers (clock (2 * approverSignatures.size)) := by
  rcases createPolicy_cases oracles ed25519Sign masterPolicyKey state approverSignatures tiers rules
    clock with ⟨⟨e, hresult⟩, hstate⟩ | ⟨policy, hresult, hstate, hid, -⟩
  · simp [hresult, hstate]
  · simp [hresult, hstate, mem_keys_set_iff, hid]

theorem initiateApproval_keys {state : GovernanceState} {transactionHash : JSString}
    {amountUSD : ℚ} {policyId : JSString} {clock : ℕ → ℤ} {id : JSString} :
    id ∈ (initiateApproval oracles state transactionHash amountUSD policyId
        clock).1.pendingApprovals.keys ↔ id ∈ state.pendingApprovals.keys ∨
      (∃ approval, (initiateApproval oracles state transactionHash amountUSD policyId clock).2 =
        .ok approval) ∧ id = approvalIdOf oracles transactionHash amountUSD (clock 0) := by
  simp only [initiateApproval]
  split
  · simp
  · split
    · simp
    · split
      · simp
      · simp [mem_keys_set_iff]

theorem createDelegation_keys {delegations : InsertionMap JSString DelegationToken}
    {call : DelegationCall} {id : JSString} :
    id ∈ (createDelegation oracles.sha256 ed25519Sign delegations call).1.keys ↔
      id ∈ delegations.keys ∨
      (∃ key signature, call.delegatorPrivateKey.bytes = .ok key ∧
        ed25519Sign (tokenData (call.unsigned oracles.sha256)) key = .ok signature) ∧
        id = call.tokenId oracles.sha256 := by
  simp only [createDelegation]
  cases call.delegatorPrivateKey.bytes with
  | error e => simp [bind, Except.bind]
  | ok key =>
    cases hsign : ed25519Sign (tokenData (call.unsigned oracles.sha256)) key with
    | error e => simp [bind, Except.bind, hsign]
    | ok signature =>
      have hid : (call.unsigned oracles.sha256).tokenId = call.tokenId oracles.sha256 := rfl
      simp only [bind, Except.bind, hsign, mem_keys_set_iff, hid]
      refine or_congr_right (iff_and_self.mpr fun _ => ⟨key, signature, rfl, hsign⟩)

/-- The calls that create no record keep the policies and the ids of the approvals. -/
theorem step_keeps_keys (state : GovernanceState) {event : GovernanceEvent}
    (h : hashedText oracles (.governance event) = none) :
    (step oracles state event).policies = state.policies ∧
      (step oracles state event).pendingApprovals = state.pendingApprovals := by
  cases event with
  | registerRoleIdentity => exact ⟨rfl, rfl⟩
  | initiateApproval => cases h
  | timeLockResolved ref envelope =>
    obtain ⟨approvals, timeLocks, hwrites⟩ := timeLockResolved_writes state ref envelope
    rw [step, hwrites]
    exact ⟨rfl, rfl⟩
  | submitApproval =>
    obtain ⟨approvals, hwrites⟩ := submitApproval_writes state _ _ _ _ _
    rw [step, hwrites]
    exact ⟨rfl, rfl⟩
  | triggerEmergency =>
    obtain ⟨emergencyState, hwrites⟩ := triggerEmergency_writes state _ _ _ _
    rw [step, hwrites]
    exact ⟨rfl, rfl⟩
  | unfreezeEmergency =>
    obtain ⟨emergencyState, hwrites⟩ := unfreezeEmergency_writes state _ _
    rw [step, hwrites]
    exact ⟨rfl, rfl⟩

/-- **One event** adds the id of the record that it stores. -/
theorem mem_keysOf_step {state : CreationState} {event : CreationEvent} {kind : RecordKind}
    {id : JSString} :
    id ∈ keysOf (creationStep oracles ed25519Sign masterPolicyKey state event) kind ↔
      id ∈ keysOf state kind ∨
        ∃ bytes, StoresBytes oracles ed25519Sign masterPolicyKey (kind, bytes) state event ∧
          id = recordId oracles bytes := by
  have hone : ∀ {kind' : RecordKind} {bytes' : Bytes} {event : CreationEvent},
      hashedBytes oracles event = some (kind', bytes') →
      ((∃ bytes, StoresBytes oracles ed25519Sign masterPolicyKey (kind, bytes) state event ∧
          id = recordId oracles bytes) ↔
        kind = kind' ∧ Stores oracles ed25519Sign masterPolicyKey state event ∧
          id = recordId oracles bytes') := by
    intro kind' bytes' event hbytes
    constructor
    · rintro ⟨bytes, ⟨hsame, hstores⟩, rfl⟩
      obtain ⟨rfl, rfl⟩ := Prod.mk.inj (Option.some.inj (hbytes.symm.trans hsame))
      exact ⟨rfl, hstores, rfl⟩
    · rintro ⟨rfl, hstores, rfl⟩
      exact ⟨bytes', ⟨hbytes, hstores⟩, rfl⟩
  cases event with
  | createPolicy approverSignatures tiers rules clock =>
    rw [hone rfl]
    cases kind with
    | policy => exact createPolicy_keys.trans (by simp only [true_and]; rfl)
    | approval =>
      rcases createPolicy_cases oracles ed25519Sign masterPolicyKey state.engine approverSignatures
        tiers rules clock with ⟨-, h⟩ | ⟨policy, -, h, -⟩ <;> simp [creationStep, keysOf, h]
    | delegation => simp [creationStep, keysOf]
  | createDelegation call =>
    rw [hone rfl]
    cases kind with
    | policy => simp [creationStep, keysOf]
    | approval => simp [creationStep, keysOf]
    | delegation =>
      refine createDelegation_keys.trans ?_
      simp only [true_and, Stores, recordId, DelegationCall.tokenId, List.append_assoc]
      rfl
  | governance event =>
    cases htext : hashedText oracles (.governance event) with
    | none =>
      obtain ⟨hpolicies, happrovals⟩ := step_keeps_keys state.engine htext
      have hnone : ¬∃ bytes, StoresBytes oracles ed25519Sign masterPolicyKey (kind, bytes) state
          (.governance event) ∧ id = recordId oracles bytes := by
        rintro ⟨bytes, ⟨hbytes, -⟩, -⟩
        rw [hashedBytes, htext] at hbytes
        cases hbytes
      rw [or_iff_left hnone]
      cases kind <;> simp [creationStep, keysOf, hpolicies, happrovals]
    | some found =>
      cases event with
      | initiateApproval transactionHash amountUSD policyId clock =>
        rw [hone rfl]
        cases kind with
        | policy =>
          obtain ⟨_, _, _, hwrites⟩ := initiateApproval_writes state.engine _ _ _ _
          rw [creationStep, keysOf, step, hwrites]
          simp [keysOf]
        | approval =>
          refine initiateApproval_keys.trans ?_
          simp only [true_and, Stores, recordId, approvalIdOf, List.append_assoc]
          rfl
        | delegation => simp [creationStep, keysOf]
      | _ => cases htext

/-! ## Runs -/

/-- The ids in the maps are those of the records that were stored. -/
theorem mem_keysOf_run {events : List CreationEvent} {kind : RecordKind} {id : JSString} :
    id ∈ keysOf (run (creationStep oracles ed25519Sign masterPolicyKey) newCreationState events)
        kind ↔
      ∃ bytes, Occurs (creationStep oracles ed25519Sign masterPolicyKey) newCreationState events
        (StoresBytes oracles ed25519Sign masterPolicyKey (kind, bytes)) ∧
          id = recordId oracles bytes := by
  induction events using List.reverseRecOn with
  | nil =>
    refine iff_of_false (by cases kind <;> exact List.not_mem_nil) ?_
    rintro ⟨bytes, hoccurs, -⟩
    exact not_occurs_nil hoccurs
  | append_singleton events event ih =>
    simp only [run_concat, occurs_concat, mem_keysOf_step, ih, or_and_right, exists_or]

theorem recordId_eq_iff {bytes bytes' : Bytes} :
    recordId oracles bytes = recordId oracles bytes' ↔
      (oracles.sha256 bytes).1.take 16 = (oracles.sha256 bytes').1.take 16 := by
  have htake : ∀ bs : Bytes, (bytesToHex bs).take 32 = bytesToHex (bs.take 16) :=
    fun bs => bytesToHex_take bs 16
  rw [recordId, recordId, List.append_cancel_left_eq, htake, htake, bytesToHex_injective.eq_iff]

/-- **A call overwrites** a record whose digest begins with the same bytes. -/
theorem overwrites_run_iff {past : List CreationEvent} {event : CreationEvent} :
    Overwrites oracles ed25519Sign masterPolicyKey
        (run (creationStep oracles ed25519Sign masterPolicyKey) newCreationState past) event ↔
      ∃ kind bytes bytes', StoresBytes oracles ed25519Sign masterPolicyKey (kind, bytes)
          (run (creationStep oracles ed25519Sign masterPolicyKey) newCreationState past) event ∧
        Occurs (creationStep oracles ed25519Sign masterPolicyKey) newCreationState past
          (StoresBytes oracles ed25519Sign masterPolicyKey (kind, bytes')) ∧
        (oracles.sha256 bytes).1.take 16 = (oracles.sha256 bytes').1.take 16 := by
  constructor
  · rintro ⟨⟨kind, bytes⟩, hstores, hmem⟩
    obtain ⟨bytes', hoccurs, hid⟩ := mem_keysOf_run.mp hmem
    exact ⟨kind, bytes, bytes', hstores, hoccurs, recordId_eq_iff.mp hid⟩
  · rintro ⟨kind, bytes, bytes', hstores, hoccurs, hdigest⟩
    exact ⟨(kind, bytes), hstores, mem_keysOf_run.mpr ⟨bytes', hoccurs, recordId_eq_iff.mpr hdigest⟩⟩

/-- Texts with different ids have digests that are told apart. -/
theorem digestsApart_of_noIdCollision {events : List CreationEvent}
    (h : NoIdCollision oracles events) :
    DigestsApart oracles ed25519Sign masterPolicyKey events := by
  rintro past event rest rfl kind bytes bytes' hstores ⟨earlier, event', later, rfl, hstores'⟩ hne
    hdigest
  refine hne (h event ?_ event' ?_ kind bytes bytes' hstores.1 hstores'.1
    (recordId_eq_iff.mpr hdigest))
  · simp
  · simp

/-- Distinct versions, none above the number of policies. -/
structure VersionsOrdered (state : CreationState) : Prop where
  nodup : state.versions.Nodup
  le_size : ∀ version ∈ state.versions, version ≤ state.engine.policies.size

theorem versionsOrdered_step {state : CreationState} {event : CreationEvent}
    (hinv : VersionsOrdered state)
    (hnew : ¬Overwrites oracles ed25519Sign masterPolicyKey state event) :
    VersionsOrdered (creationStep oracles ed25519Sign masterPolicyKey state event) := by
  have hkept : ∀ {state' : CreationState}, state'.engine.policies = state.engine.policies →
      VersionsOrdered state' := by
    intro state' hsame
    have hversions : state'.versions = state.versions := by
      rw [CreationState.versions, CreationState.versions, hsame]
    exact ⟨hversions ▸ hinv.nodup, by rw [hversions, hsame]; exact hinv.le_size⟩
  cases event with
  | createPolicy approverSignatures tiers rules clock =>
    rcases createPolicy_cases oracles ed25519Sign masterPolicyKey state.engine approverSignatures
      tiers rules clock with ⟨-, hstate⟩ | ⟨policy, hresult, hstate, hid, hversion⟩
    · exact hkept (by rw [creationStep, hstate])
    · have hfresh : policy.policyId ∉ state.engine.policies.keys := by
        rw [hid]
        exact fun hmem => hnew ⟨_, ⟨rfl, policy, hresult⟩, hmem⟩
      have hversions : (creationStep oracles ed25519Sign masterPolicyKey state
          (.createPolicy approverSignatures tiers rules clock)).versions =
            state.versions ++ [state.engine.policies.size + 1] := by
        simp [creationStep, hstate, CreationState.versions, InsertionMap.values,
          InsertionMap.entries_set_of_not_mem hfresh, hversion]
      have hsize : (creationStep oracles ed25519Sign masterPolicyKey state
          (.createPolicy approverSignatures tiers rules clock)).engine.policies.size =
            state.engine.policies.size + 1 := by
        simp [creationStep, hstate, InsertionMap.size_set_of_not_mem hfresh]
      refine ⟨?_, fun version hmem => ?_⟩
      · rw [hversions, List.nodup_append]
        refine ⟨hinv.nodup, List.nodup_singleton _, fun version hmem other hother heq => ?_⟩
        have hle := hinv.le_size version hmem
        rw [heq, List.mem_singleton.mp hother] at hle
        omega
      · rw [hversions, List.mem_append, List.mem_singleton] at hmem
        rw [hsize]
        rcases hmem with hmem | rfl
        · exact (hinv.le_size version hmem).trans (Nat.le_succ _)
        · exact le_rfl
  | createDelegation call => exact hkept rfl
  | governance event =>
    refine hkept ?_
    cases event with
    | initiateApproval =>
      obtain ⟨_, _, _, hwrites⟩ := initiateApproval_writes state.engine _ _ _ _
      rw [creationStep, step, hwrites]
    | _ => exact (step_keeps_keys state.engine rfl).1

/-- **New records.** No stored record is overwritten, and the versions stay distinct, exactly
when no text is hashed for two records of one kind and the digests of different texts differ in
their first 16 bytes. -/
theorem creation_keeps_records_iff (oracles : GovernanceOracles)
    (ed25519Sign : Bytes → Bytes → Except JSError Bytes) (masterPolicyKey : SecureBuffer)
    (events : List CreationEvent) :
    (Always (creationStep oracles ed25519Sign masterPolicyKey) newCreationState events
        (fun state event => ¬Overwrites oracles ed25519Sign masterPolicyKey state event) ∧
      Throughout (creationStep oracles ed25519Sign masterPolicyKey) newCreationState events
        fun state => state.versions.Nodup) ↔
      FreshTexts oracles ed25519Sign masterPolicyKey events ∧
        DigestsApart oracles ed25519Sign masterPolicyKey events := by
  constructor
  · rintro ⟨hkept, -⟩
    constructor
    · intro past event rest hcut e hstores hoccurs
      exact hkept past event rest hcut
        (overwrites_run_iff.mpr ⟨e.1, e.2, e.2, hstores, hoccurs, rfl⟩)
    · intro past event rest hcut kind bytes bytes' hstores hoccurs _ hdigest
      exact hkept past event rest hcut
        (overwrites_run_iff.mpr ⟨kind, bytes, bytes', hstores, hoccurs, hdigest⟩)
  · rintro ⟨hfresh, hapart⟩
    have hkept : Always (creationStep oracles ed25519Sign masterPolicyKey) newCreationState events
        fun state event => ¬Overwrites oracles ed25519Sign masterPolicyKey state event := by
      intro past event rest hcut hoverwrites
      obtain ⟨kind, bytes, bytes', hstores, hoccurs, hdigest⟩ := overwrites_run_iff.mp hoverwrites
      by_cases hsame : bytes = bytes'
      · exact hfresh past event rest hcut (kind, bytes) hstores (hsame ▸ hoccurs)
      · exact hapart past event rest hcut kind bytes bytes' hstores hoccurs hsame hdigest
    have hstart : VersionsOrdered newCreationState :=
      ⟨List.nodup_nil, fun version hmem => absurd hmem List.not_mem_nil⟩
    have hversions := throughout_induction VersionsOrdered hstart
      (fun state event => versionsOrdered_step) hkept
    exact ⟨hkept, fun past rest hcut => (hversions past rest hcut).nodup⟩

/-! ## Two records in one millisecond -/

/-- The unit in front of the reading in a hashed text. -/
def RecordKind.separator : RecordKind → UInt16
  | .policy => 93
  | .approval => 58
  | .delegation => 58

theorem hashedText_separator {event : CreationEvent} {kind : RecordKind} {text : JSString} {now : ℤ}
    (h : hashedText oracles event = some (kind, text, now)) :
    ∃ body, text = body ++ [kind.separator] := by
  cases event with
  | createPolicy =>
    obtain ⟨rfl, rfl, rfl⟩ := Option.some.inj h
    exact ⟨_, rfl⟩
  | createDelegation =>
    obtain ⟨rfl, rfl, rfl⟩ := Option.some.inj h
    exact ⟨_, rfl⟩
  | governance event =>
    cases event with
    | initiateApproval =>
      obtain ⟨rfl, rfl, rfl⟩ := Option.some.inj h
      exact ⟨_, rfl⟩
    | _ => cases h

/-- **The hashed bytes fix the reading of the clock.** -/
theorem hashedBytes_reading {event event' : CreationEvent} {kind : RecordKind}
    {text text' : JSString} {now now' : ℤ}
    (h : hashedText oracles event = some (kind, text, now))
    (h' : hashedText oracles event' = some (kind, text', now'))
    (hbytes : hashedBytes oracles event = hashedBytes oracles event') : now = now' := by
  obtain ⟨body, rfl⟩ := hashedText_separator h
  obtain ⟨body', rfl⟩ := hashedText_separator h'
  have hnot : ∀ n, kind.separator ∉ bigintString n := by
    intro n
    cases kind <;> exact not_mem_bigintString (by decide) (by decide) n
  rw [hashedBytes, hashedBytes, h, h'] at hbytes
  simp only [Option.map_some, Option.some.injEq, Prod.mk.injEq, true_and, List.append_assoc,
    List.singleton_append] at hbytes
  refine bigintString_injective (textEncode_last_inj ?_ (bigintString_ascii now)
    (bigintString_ascii now') (hnot now) (hnot now') hbytes).2
  cases kind <;> decide

/-- Calls of one kind read different milliseconds. -/
def DistinctReadings (oracles : GovernanceOracles) (events : List CreationEvent) : Prop :=
  events.Pairwise fun event event' => ∀ kind text text' now now',
    hashedText oracles event = some (kind, text, now) →
    hashedText oracles event' = some (kind, text', now') → now ≠ now'

theorem freshTexts_of_readings {events : List CreationEvent}
    (h : DistinctReadings oracles events) :
    FreshTexts oracles ed25519Sign masterPolicyKey events := by
  rintro past event rest rfl e ⟨hbytes, -⟩ ⟨earlier, event', later, rfl, hbytes', -⟩
  have hapart := (List.pairwise_append.mp h).2.2 event' (by simp) event List.mem_cons_self
  rw [hashedBytes] at hbytes hbytes'
  obtain ⟨⟨kind, text, now⟩, htext, rfl⟩ := Option.map_eq_some_iff.mp hbytes
  obtain ⟨⟨kind', text', now'⟩, htext', hsame⟩ := Option.map_eq_some_iff.mp hbytes'
  obtain rfl : kind' = kind := congrArg Prod.fst hsame
  refine hapart kind' text' text now' now htext' htext (hashedBytes_reading htext' htext ?_)
  rw [hashedBytes, hashedBytes, htext, htext', Option.map_some, hsame, Option.map_some]

/-- A second delegation for the same key. -/
def delegatesAgain (later : ℤ) : List CreationEvent :=
  [.createDelegation auditorCall,
    .createDelegation { auditorCall with
      delegatedRoles := [.TREASURY], clock := fun k => newYear k + later }]

/-- Every message is signed. -/
def signAll (_ _ : Bytes) : Except JSError Bytes := .ok []

/-- In one millisecond the second delegation replaces the first one. -/
theorem second_delegation_overwrites :
    NoIdCollision delegationOracles (delegatesAgain 0) ∧
      ¬Always (creationStep delegationOracles signAll masterKey) newCreationState (delegatesAgain 0)
        (fun state event => ¬Overwrites delegationOracles signAll masterKey state event) := by
  constructor
  · have hone : ∀ event ∈ delegatesAgain 0, hashedBytes delegationOracles event =
        some (.delegation, textEncode (js "ADMIN:0x04:1767225600000")) := by
      intro event hmem
      rcases List.mem_pair.mp hmem with rfl | rfl <;> with_unfolding_all rfl
    intro event hmem event' hmem' kind bytes bytes' h h' _
    rw [hone event hmem] at h
    rw [hone event' hmem'] at h'
    exact (Prod.mk.inj (Option.some.inj (h.symm.trans h'))).2
  · intro h
    refine h [.createDelegation auditorCall] _ [] rfl
      ⟨(.delegation, _), ⟨rfl, _, _, rfl, rfl⟩, ?_⟩
    decide

/-- A hash that tells the texts of two milliseconds apart. -/
def tickingOracles : GovernanceOracles := { delegationOracles with
  sha256 bytes :=
    if bytes = textEncode (js "ADMIN:0x04:1767225600000") then delegationDigest else zeroDigest }

/-- A millisecond later the second delegation is stored beside the first one. -/
theorem later_delegation_kept :
    Always (creationStep tickingOracles signAll masterKey) newCreationState (delegatesAgain 1)
        (fun state event => ¬Overwrites tickingOracles signAll masterKey state event) ∧
      Throughout (creationStep tickingOracles signAll masterKey) newCreationState
        (delegatesAgain 1) fun state => state.versions.Nodup := by
  refine (creation_keeps_records_iff tickingOracles signAll masterKey (delegatesAgain 1)).mpr
    ⟨freshTexts_of_readings ?_, digestsApart_of_noIdCollision ?_⟩
  · refine List.pairwise_pair.mpr fun kind text text' now now' h h' => ?_
    obtain ⟨-, -, rfl⟩ := Option.some.inj h
    obtain ⟨-, -, rfl⟩ := Option.some.inj h'
    decide
  · have hapart : recordId tickingOracles (textEncode (js "ADMIN:0x04:1767225600000")) ≠
        recordId tickingOracles (textEncode (js "ADMIN:0x04:1767225600001")) := by
      decide
    have hbytes : ∀ event ∈ delegatesAgain 1, ∀ kind bytes,
        hashedBytes tickingOracles event = some (kind, bytes) →
        bytes = textEncode (js "ADMIN:0x04:1767225600000") ∨
          bytes = textEncode (js "ADMIN:0x04:1767225600001") := by
      intro event hmem kind bytes h
      rcases List.mem_pair.mp hmem with rfl | rfl
      · left
        have hfirst : hashedBytes tickingOracles (.createDelegation auditorCall) =
            some (.delegation, textEncode (js "ADMIN:0x04:1767225600000")) := by
          with_unfolding_all rfl
        exact (Prod.mk.inj (Option.some.inj (h.symm.trans hfirst))).2
      · right
        have hsecond : hashedBytes tickingOracles (.createDelegation { auditorCall with
            delegatedRoles := [.TREASURY], clock := fun k => newYear k + 1 }) =
              some (.delegation, textEncode (js "ADMIN:0x04:1767225600001")) := by
          with_unfolding_all rfl
        exact (Prod.mk.inj (Option.some.inj (h.symm.trans hsecond))).2
    intro event hmem event' hmem' kind bytes bytes' h h' hid
    rcases hbytes event hmem kind bytes h with rfl | rfl <;>
      rcases hbytes event' hmem' kind bytes' h' with rfl | rfl
    · rfl
    · exact absurd hid hapart
    · exact absurd hid.symm hapart
    · rfl

end BioFire.Governance
