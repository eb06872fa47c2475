import BioFire.ApprovalCompletion
import BioFire.EmergencyFreeze

/-!
# Failed submissions (`src/lib/governance/governance_engine.ts`)

A `submitApproval` that throws. Every check stands before the first write; the aggregation of
the signatures stands behind it.

* `checkSubmission_eq_ok_iff`: what passes the checks;
* `leavesNoTrace_iff`: a failed call leaves a trace exactly when the signatures it completes
  do not aggregate.
-/

namespace BioFire.Governance

open Runs

variable {oracles : GovernanceOracles}

/-- The signatures and the status of a pending approval. -/
def collected (state : GovernanceState) (approvalId : JSString) :
    Option (InsertionMap JSString JSString × ApprovalStatus) :=
  (lookupApproval state approvalId).map fun e => (e.2.approvals, e.2.status)

/-- If the call throws, every pending approval is as before. -/
def LeavesNoTrace (oracles : GovernanceOracles) (state : GovernanceState) (approvalId : JSString)
    (role : GovernanceRole) (ed25519Signature blsSignature : JSString) (clock : ℕ → ℤ) : Prop :=
  (∃ e, (submitApproval oracles state approvalId role ed25519Signature blsSignature clock).2 =
    .error e) →
  ∀ id, collected (submitApproval oracles state approvalId role ed25519Signature blsSignature
    clock).1 id = collected state id

/-- Both signatures are good for an approval that still collects. -/
structure Admissible (oracles : GovernanceOracles) (state : GovernanceState)
    (approval : PendingApproval) (role : GovernanceRole) (ed25519Signature blsSignature : JSString)
    (clock : ℕ → ℤ) (identity : RoleIdentity) : Prop where
  unexpired : ¬(approval.status = .EXPIRED ∧ approval.expiresAt < clock 0)
  open' : approval.status ≠ .APPROVED
  signed : (verifyRoleSignature oracles state role (approvalMessage approval) ed25519Signature
    (clock 1)).identity = some identity
  bls : oracles.verifyBLSSignature identity.blsPublicKey (approvalMessage approval) blsSignature =
    true

/-- A new signature reaches the threshold, and the signatures do not aggregate. -/
def FailsToAggregate (oracles : GovernanceOracles) (state : GovernanceState)
    (approvalId : JSString) (role : GovernanceRole) (ed25519Signature blsSignature : JSString)
    (clock : ℕ → ℤ) : Prop :=
  ∃ ref approval identity, lookupApproval state approvalId = some (ref, approval) ∧
    Admissible oracles state approval role ed25519Signature blsSignature clock identity ∧
    approval.approvals.get identity.ed25519PublicKey ≠ some blsSignature ∧
    let signatures := approval.approvals.set identity.ed25519PublicKey blsSignature
    approval.tier.thresholdCount ≤ signatures.size ∧
      ∃ e, oracles.aggregateSignatures signatures.values.zipIdx = .error e

theorem checkSubmission_eq_ok_iff {state : GovernanceState} {approval : PendingApproval}
    {role : GovernanceRole} {ed25519Signature blsSignature : JSString} {clock : ℕ → ℤ}
    {identity : RoleIdentity} :
    checkSubmission oracles state approval role ed25519Signature blsSignature clock =
        .ok identity ↔
      Admissible oracles state approval role ed25519Signature blsSignature clock identity := by
  constructor
  · intro h
    obtain ⟨hopen, hsigned, hbls⟩ := checkSubmission_ok h
    refine ⟨fun hexpired => ?_, hopen, hsigned, hbls⟩
    rw [checkSubmission, if_pos hexpired] at h
    cases h
  · rintro ⟨hexpired, hopen, hsigned, hbls⟩
    have hvalid : (verifyRoleSignature oracles state role (approvalMessage approval)
        ed25519Signature (clock 1)).valid = _ := verifyRoleSignature_isSome _ _ _ _ _
    rw [hsigned, Option.isSome_some] at hvalid
    rw [checkSubmission, if_neg hexpired, if_neg hopen]
    simp [hvalid, hsigned, hbls]

theorem collected_set {state : GovernanceState} {approvalId : JSString} {ref : ℕ}
    {approval approval' : PendingApproval}
    (hlookup : lookupApproval state approvalId = some (ref, approval)) :
    (∀ id, collected { state with approvals := state.approvals.set ref approval' } id =
        collected state id) ↔
      approval'.approvals = approval.approvals ∧ approval'.status = approval.status := by
  obtain ⟨hget, happroval⟩ := lookupApproval_eq_some hlookup
  obtain ⟨hlt, hat⟩ := List.getElem?_eq_some_iff.mp happroval
  constructor
  · intro h
    have hsame := h approvalId
    rw [collected, collected, hlookup] at hsame
    simpa [lookupApproval, hget, hlt] using hsame
  · rintro ⟨hsignatures, hstatus⟩ id
    simp only [collected, lookupApproval]
    cases state.pendingApprovals.get id with
    | none => rfl
    | some ref' =>
      by_cases hsame : ref = ref'
      · subst hsame
        simp [hlt, hat, hsignatures, hstatus]
      · simp [List.getElem?_set_ne hsame]

/-- **Failed submissions.** A call that throws leaves a trace exactly when its signature
reaches the threshold and the aggregation throws. -/
theorem leavesNoTrace_iff (oracles : GovernanceOracles) (state : GovernanceState)
    (approvalId : JSString) (role : GovernanceRole) (ed25519Signature blsSignature : JSString)
    (clock : ℕ → ℤ) :
    LeavesNoTrace oracles state approvalId role ed25519Signature blsSignature clock ↔
      ¬FailsToAggregate oracles state approvalId role ed25519Signature blsSignature clock := by
  rw [LeavesNoTrace, submitApproval]
  cases hlookup : lookupApproval state approvalId with
  | none =>
    refine iff_of_true (fun _ _ => rfl) ?_
    rintro ⟨ref, approval, identity, hfound, -⟩
    rw [hlookup] at hfound
    cases hfound
  | some found =>
    obtain ⟨ref, approval⟩ := found
    dsimp only
    cases hcheck : checkSubmission oracles state approval role ed25519Signature blsSignature
        clock with
    | error e =>
      refine iff_of_true (fun _ _ => rfl) ?_
      rintro ⟨ref', approval', identity, hfound, hadmissible, -⟩
      obtain ⟨rfl, rfl⟩ := Prod.mk.inj (Option.some.inj (hlookup.symm.trans hfound))
      rw [checkSubmission_eq_ok_iff.mpr hadmissible] at hcheck
      cases hcheck
    | ok identity =>
      have hfails : FailsToAggregate oracles state approvalId role ed25519Signature blsSignature
          clock ↔ approval.approvals.get identity.ed25519PublicKey ≠ some blsSignature ∧
            approval.tier.thresholdCount ≤
              (approval.approvals.set identity.ed25519PublicKey blsSignature).size ∧
            ∃ e, oracles.aggregateSignatures
              (approval.approvals.set identity.ed25519PublicKey blsSignature).values.zipIdx =
                .error e := by
        constructor
        · rintro ⟨ref', approval', identity', hfound, hadmissible, hfails⟩
          obtain ⟨rfl, rfl⟩ := Prod.mk.inj (Option.some.inj (hlookup.symm.trans hfound))
          obtain rfl := Except.ok.inj
            (hcheck.symm.trans (checkSubmission_eq_ok_iff.mpr hadmissible))
          exact hfails
        · exact fun h => ⟨ref, approval, identity, hlookup, checkSubmission_eq_ok_iff.mp hcheck, h⟩
      rw [hfails]
      dsimp only
      split
      next hmet =>
        rw [remaining_eq_zero] at hmet
        cases haggregate : oracles.aggregateSignatures
            (approval.approvals.set identity.ed25519PublicKey blsSignature).values.zipIdx with
        | error e =>
          simp [collected_set hlookup, InsertionMap.set_eq_self_iff, hmet]
        | ok aggregated => simp
      next hmore =>
        rw [remaining_eq_zero] at hmore
        simp [hmore]

/-! ## An aggregation that throws -/

/-- No signatures aggregate. -/
def failingOracles : GovernanceOracles := { testOracles with
  aggregateSignatures _ := .error (plainError (js "Aggregation failed")) }

/-- The administrator has signed, one signature is missing. -/
def oneSignature : GovernanceState :=
  run (step failingOracles) (newEngine testPolicies) ((twoSubmissions .ADMIN .TREASURY).take 4)

/-- The treasurer's submission throws and is counted. -/
theorem failed_submission_recorded :
    ¬LeavesNoTrace failingOracles oneSignature (approvalIdOf testOracles (js "tx") 1000 0) .TREASURY
      (js "0xbb") (js "0x02") (fun _ => 0) := by
  intro h
  have hsame := h ⟨plainError (js "Aggregation failed"), by with_unfolding_all rfl⟩
    (approvalIdOf testOracles (js "tx") 1000 0)
  have hsize := congrArg (Option.map fun e => e.1.size) hsame
  have hone : (collected oneSignature (approvalIdOf testOracles (js "tx") 1000 0)).map
      (fun e => e.1.size) = some 1 := by
    with_unfolding_all rfl
  have htwo : (collected (submitApproval failingOracles oneSignature
      (approvalIdOf testOracles (js "tx") 1000 0) .TREASURY (js "0xbb") (js "0x02")
      fun _ => 0).1 (approvalIdOf testOracles (js "tx") 1000 0)).map (fun e => e.1.size) =
        some 2 := by
    with_unfolding_all rfl
  rw [hone, htwo] at hsize
  exact absurd hsize (by decide)

end BioFire.Governance
