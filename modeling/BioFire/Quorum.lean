import BioFire.Governance
import Mathlib.Data.List.Dedup

/-!
# The quorum of an approval

* `approved_has_quorum`: an approved object was signed by as many registered
  identities with a role of its tier as the tier asks for, in every run in which
  only holders of such roles submit;
* `auditors_approve`: the roles of the tier are not checked.
-/

namespace BioFire.Governance

open Runs

variable (oracles : GovernanceOracles)

/-- The event submits a valid signature of the registered identity `publicKey`, which
holds a role of `tier`, for the approval object `ref`. -/
def SubmitsValid (ref : ℕ) (tier : ApprovalTier) (publicKey : JSString) (state : GovernanceState)
    (event : GovernanceEvent) : Prop :=
  ∃ approvalId role ed25519Signature blsSignature clock approval identity,
    event = .submitApproval approvalId role ed25519Signature blsSignature clock ∧
    lookupApproval state approvalId = some (ref, approval) ∧ approval.tier = tier ∧
    state.roleIdentities.get publicKey = some identity ∧ identity.role = role ∧
    role ∈ tier.requiredRoles ∧
    ed25519Check oracles publicKey (approvalMessage approval) ed25519Signature = .ok true ∧
    oracles.verifyBLSSignature identity.blsPublicKey (approvalMessage approval) blsSignature

/-- Enough distinct identities have submitted for the approval object `ref`. -/
def HasQuorum (start : GovernanceState) (events : List GovernanceEvent) (ref : ℕ)
    (tier : ApprovalTier) : Prop :=
  ∃ signers : List JSString, signers.Nodup ∧ tier.thresholdCount ≤ signers.length ∧
    ∀ publicKey ∈ signers, Occurs (step oracles) start events (SubmitsValid oracles ref tier publicKey)

/-- A submission with valid signatures for an open approval names a role of the tier. -/
def NamesRequiredRole (state : GovernanceState) : GovernanceEvent → Prop
  | .submitApproval approvalId role ed25519Signature blsSignature clock =>
    ∀ ref approval identity, lookupApproval state approvalId = some (ref, approval) →
      approval.status ≠ .APPROVED →
      (verifyRoleSignature oracles state role (approvalMessage approval) ed25519Signature
        (clock 1)).identity = some identity →
      oracles.verifyBLSSignature identity.blsPublicKey (approvalMessage approval) blsSignature →
      role ∈ approval.tier.requiredRoles
  | _ => True

variable {oracles}

/-! ## Registered identities -/

/-- Every identity is stored under its own key. -/
def Keyed (state : GovernanceState) : Prop :=
  ∀ publicKey identity, state.roleIdentities.get publicKey = some identity →
    identity.ed25519PublicKey = publicKey

theorem keyed_step {state : GovernanceState} (h : Keyed state) (event : GovernanceEvent) :
    Keyed (step oracles state event) := by
  have hsame : ∀ state' : GovernanceState, state'.roleIdentities = state.roleIdentities →
      Keyed state' := by
    intro state' heq publicKey identity hget
    rw [heq] at hget
    exact h publicKey identity hget
  cases event with
  | registerRoleIdentity role ed25519PublicKey hdPath blsPublicKey =>
    intro publicKey identity hget
    simp only [step, registerRoleIdentity, InsertionMap.get_set] at hget
    split at hget
    next heq =>
      obtain rfl := Option.some.inj hget
      exact heq.symm
    · exact h publicKey identity hget
  | initiateApproval =>
    obtain ⟨pendingApprovals, approvals, timeLocks, hwrites⟩ := initiateApproval_writes state _ _ _ _
    rw [step, hwrites]
    exact hsame _ rfl
  | timeLockResolved =>
    obtain ⟨approvals, timeLocks, hwrites⟩ := timeLockResolved_writes state _ _
    rw [step, hwrites]
    exact hsame _ rfl
  | submitApproval =>
    obtain ⟨approvals, hwrites⟩ := submitApproval_writes state _ _ _ _ _
    rw [step, hwrites]
    exact hsame _ rfl
  | triggerEmergency =>
    obtain ⟨emergencyState, hwrites⟩ := triggerEmergency_writes state _ _ _ _
    rw [step, hwrites]
    exact hsame _ rfl
  | unfreezeEmergency =>
    obtain ⟨emergencyState, hwrites⟩ := unfreezeEmergency_writes state _ _
    rw [step, hwrites]
    exact hsame _ rfl

/-! ## The invariant -/

/-- Every recorded signature was submitted, and an approved object has enough of them. -/
structure QuorumInvariant (oracles : GovernanceOracles) (start : GovernanceState)
    (past : List GovernanceEvent) (state : GovernanceState) : Prop where
  keyed : Keyed state
  signed : ∀ (ref : ℕ) (approval : PendingApproval), state.approvals[ref]? = some approval →
    ∀ publicKey ∈ approval.approvals.keys,
      Occurs (step oracles) start past (SubmitsValid oracles ref approval.tier publicKey)
  enough : ∀ (ref : ℕ) (approval : PendingApproval),
    state.approvals[ref]? = some approval → approval.status = .APPROVED →
    approval.tier.thresholdCount ≤ approval.approvals.size

theorem submitsValid_of_check {state : GovernanceState} (hkeyed : Keyed state)
    {approvalId : JSString} {role : GovernanceRole} {ed25519Signature blsSignature : JSString}
    {clock : ℕ → ℤ} {ref : ℕ} {approval : PendingApproval} {identity : RoleIdentity}
    (hrole : NamesRequiredRole oracles state
      (.submitApproval approvalId role ed25519Signature blsSignature clock))
    (hlookup : lookupApproval state approvalId = some (ref, approval))
    (hcheck : checkSubmission oracles state approval role ed25519Signature blsSignature clock =
      .ok identity) :
    SubmitsValid oracles ref approval.tier identity.ed25519PublicKey state
      (.submitApproval approvalId role ed25519Signature blsSignature clock) := by
  obtain ⟨hopen, hidentity, hbls⟩ := checkSubmission_ok hcheck
  obtain ⟨publicKey, hget, rfl, hed⟩ := verifyRoleSignature_valid hidentity
  obtain rfl := hkeyed publicKey identity hget
  exact ⟨approvalId, identity.role, ed25519Signature, blsSignature, clock, approval, identity, rfl,
    hlookup, rfl, hget, rfl, hrole ref approval identity hlookup hopen hidentity hbls, hed, hbls⟩

theorem quorumInvariant_step {start : GovernanceState} {past : List GovernanceEvent}
    {event : GovernanceEvent}
    (h : QuorumInvariant oracles start past (run (step oracles) start past))
    (hrole : NamesRequiredRole oracles (run (step oracles) start past) event) :
    QuorumInvariant oracles start (past ++ [event])
      (step oracles (run (step oracles) start past) event) := by
  have hmore : ∀ {ref : ℕ} {approval : PendingApproval} {identity : RoleIdentity}
      {blsSignature : JSString},
      (run (step oracles) start past).approvals[ref]? = some approval →
      SubmitsValid oracles ref approval.tier identity.ed25519PublicKey
        (run (step oracles) start past) event →
      ∀ publicKey ∈ (approval.approvals.set identity.ed25519PublicKey blsSignature).keys,
        Occurs (step oracles) start (past ++ [event])
          (SubmitsValid oracles ref approval.tier publicKey) := by
    intro ref approval identity blsSignature hold hvalid publicKey hmem
    rcases InsertionMap.mem_keys_set.mp hmem with rfl | hmem
    · exact occurs_concat.mpr (Or.inr hvalid)
    · exact occurs_concat.mpr (Or.inl (h.signed ref approval hold publicKey hmem))
  refine ⟨keyed_step h.keyed event, fun ref approval hget publicKey hmem => ?_,
    fun ref approval hget hstatus => ?_⟩
  · cases step_approvals hget with
    | kept hold => exact occurs_concat.mpr (Or.inl (h.signed ref approval hold publicKey hmem))
    | created hnew =>
      rw [(initiateApproval_ok hnew).1] at hmem
      cases hmem
    | unlocked hold _ => exact occurs_concat.mpr (Or.inl (h.signed ref _ hold publicKey hmem))
    | submitted hlookup hcheck =>
      exact hmore (lookupApproval_eq_some hlookup).2
        (submitsValid_of_check h.keyed hrole hlookup hcheck) publicKey hmem
    | approved hlookup hcheck _ =>
      exact hmore (lookupApproval_eq_some hlookup).2
        (submitsValid_of_check h.keyed hrole hlookup hcheck) publicKey hmem
  · cases step_approvals hget with
    | kept hold => exact h.enough ref approval hold hstatus
    | created hnew => exact absurd hstatus (initiateApproval_ok hnew).2.1
    | unlocked _ _ => cases hstatus
    | submitted _ hcheck => exact absurd hstatus (checkSubmission_ok hcheck).1
    | approved _ _ hthreshold => exact hthreshold

/-- **Quorum.** In a run in which valid submissions come from holders of required
roles, an approved object has its quorum. -/
theorem approved_has_quorum {policies : InsertionMap JSString GovernancePolicy}
    {events : List GovernanceEvent}
    (h : Always (step oracles) (newEngine policies) events (NamesRequiredRole oracles)) {ref : ℕ}
    {approval : PendingApproval}
    (hget : (run (step oracles) (newEngine policies) events).approvals[ref]? = some approval)
    (hstatus : approval.status = .APPROVED) :
    HasQuorum oracles (newEngine policies) events ref approval.tier := by
  have hstart : QuorumInvariant oracles (newEngine policies) [] (newEngine policies) := by
    refine ⟨fun _ _ hget => ?_, fun _ _ hget => ?_, fun _ _ hget => ?_⟩ <;> cases hget
  have hinv := run_induction _ hstart (fun _ _ => quorumInvariant_step) h
  refine ⟨approval.approvals.keys, approval.approvals.nodup, ?_, hinv.signed ref approval hget⟩
  rw [InsertionMap.keys, List.length_map]
  exact hinv.enough ref approval hget hstatus

/-! ## Two submissions -/

/-- A key signs with itself. -/
def testOracles : GovernanceOracles where
  sha256 _ := zeroDigest
  ed25519Verify sig _ pub := .ok (sig = pub)
  verifyBLSSignature publicKey _ signature := publicKey = signature
  aggregateSignatures signatures := .ok ⟨[], signatures.map fun s => .ofInt s.2, [], true⟩
  numberString _ := js "1000"

def testTier : ApprovalTier where
  tierName := js "HIGH"
  minAmountUSD := 0
  maxAmountUSD := 1000000
  requiredRoles := [.ADMIN, .TREASURY]
  thresholdCount := 2
  timeLockSeconds := 0
  requiresEmergencyOverride := false

def testPolicies : InsertionMap JSString GovernancePolicy :=
  InsertionMap.empty.set (js "policy") {
    policyId := js "policy"
    version := 1
    tiers := [testTier]
    circuitBreakerRules := []
    signedBy := []
    merkleRoot := []
    createdAt := 0 }

/-- Two identities are registered and submit for one approval. -/
def twoSubmissions (role₁ role₂ : GovernanceRole) : List GovernanceEvent :=
  let approvalId := approvalIdOf testOracles (js "tx") 1000 0
  [.registerRoleIdentity role₁ (js "0xaa") (js "m/0") (js "0x01"),
    .registerRoleIdentity role₂ (js "0xbb") (js "m/1") (js "0x02"),
    .initiateApproval (js "tx") 1000 (js "policy") (fun _ => 0),
    .submitApproval approvalId role₁ (js "0xaa") (js "0x01") (fun _ => 0),
    .submitApproval approvalId role₂ (js "0xbb") (js "0x02") (fun _ => 0)]

/-- Two auditors approve for a tier of administrators and treasurers. -/
theorem auditors_approve :
    ∃ approval, (run (step testOracles) (newEngine testPolicies)
        (twoSubmissions .AUDITOR .AUDITOR)).approvals[0]? = some approval ∧
      approval.status = .APPROVED ∧
      ¬ HasQuorum testOracles (newEngine testPolicies) (twoSubmissions .AUDITOR .AUDITOR) 0
        approval.tier := by
  refine ⟨_, by with_unfolding_all rfl, rfl, ?_⟩
  rintro ⟨signers, -, hlen, hsigned⟩
  cases signers with
  | nil => exact absurd hlen (by decide)
  | cons publicKey signers =>
    obtain ⟨past, event, rest, hcut, _, role, _, _, _, _, _, rfl, -, -, -, -, hrole, -⟩ :=
      hsigned publicKey List.mem_cons_self
    have hmem := hcut ▸ List.mem_append_right past List.mem_cons_self
    have hauditor : role = .AUDITOR := by
      simp only [twoSubmissions, List.mem_cons, List.not_mem_nil, reduceCtorEq, false_or, or_false,
        GovernanceEvent.submitApproval.injEq] at hmem
      rcases hmem with ⟨-, h, -⟩ | ⟨-, h, -⟩ <;> exact h
    subst hauditor
    exact absurd hrole (by decide)

theorem approved_has_quorum_two :
    ∃ approval, (run (step testOracles) (newEngine testPolicies)
        (twoSubmissions .ADMIN .TREASURY)).approvals[0]? = some approval ∧
      approval.status = .APPROVED ∧
      HasQuorum testOracles (newEngine testPolicies) (twoSubmissions .ADMIN .TREASURY) 0
        approval.tier := by
  refine ⟨_, by with_unfolding_all rfl, rfl, approved_has_quorum ?_ (by with_unfolding_all rfl) rfl⟩
  refine always_cons.mpr ⟨trivial, always_cons.mpr ⟨trivial, always_cons.mpr ⟨trivial,
    always_cons.mpr ⟨fun ref approval identity hlookup _ _ _ => ?_,
      always_cons.mpr ⟨fun ref approval identity hlookup _ _ _ => ?_, always_nil⟩⟩⟩⟩⟩
  all_goals
    have hfound := congrArg (Option.map fun e => e.2.tier.requiredRoles) hlookup
    have hroles : testTier.requiredRoles = approval.tier.requiredRoles := by
      with_unfolding_all exact Option.some.inj hfound
    rw [← hroles]
    decide

end BioFire.Governance
