import BioFire.Quorum

/-!
# The emergency freeze

While an emergency is active nothing can be initiated. `submitApproval` does not
look at the emergency:

* `noProgress_iff`: a step of a frozen engine creates no approval and completes none,
  unless it is a submission that reaches the threshold;
* `freeze_stops_approvals_iff`: the same over whole runs.
-/

namespace BioFire.Governance

open Runs

variable (oracles : GovernanceOracles)

/-- The clock of a call, for the calls that read it. -/
def GovernanceEvent.clock? : GovernanceEvent → Option (ℕ → ℤ)
  | .initiateApproval _ _ _ clock => some clock
  | .submitApproval _ _ _ _ clock => some clock
  | .triggerEmergency _ _ _ clock => some clock
  | .unfreezeEmergency _ clock => some clock
  | .registerRoleIdentity _ _ _ _ => none
  | .timeLockResolved _ _ => none

/-- The event meets an active emergency before its `expiresAt`. -/
def Frozen (state : GovernanceState) (event : GovernanceEvent) : Prop :=
  ∃ emergency, state.emergencyState = some emergency ∧ emergency.isActive = true ∧
    ∀ clock, event.clock? = some clock → clock 0 < emergency.expiresAt

/-- No approval is created, and none becomes `APPROVED`. -/
structure NoProgress (before after : GovernanceState) : Prop where
  pendingApprovals : after.pendingApprovals = before.pendingApprovals
  length : after.approvals.length = before.approvals.length
  approved : ∀ (ref : ℕ) (approval : PendingApproval), after.approvals[ref]? = some approval →
    approval.status = .APPROVED →
    ∃ old, before.approvals[ref]? = some old ∧ old.status = .APPROVED

/-- The submission is accepted for the object at `ref`, reaches its threshold, and the
signatures aggregate. -/
def CompletesAt (state : GovernanceState) (ref : ℕ)
    (approval : PendingApproval) : GovernanceEvent → Prop
  | .submitApproval approvalId role ed25519Signature blsSignature clock =>
    lookupApproval state approvalId = some (ref, approval) ∧
      ∃ identity aggregated,
        checkSubmission oracles state approval role ed25519Signature blsSignature clock =
          .ok identity ∧
        approval.tier.thresholdCount ≤
          (approval.approvals.set identity.ed25519PublicKey blsSignature).size ∧
        oracles.aggregateSignatures
          (approval.approvals.set identity.ed25519PublicKey blsSignature).values.zipIdx =
            .ok aggregated
  | _ => False

/-- Some approval is completed. -/
def CompletesApproval (state : GovernanceState) (event : GovernanceEvent) : Prop :=
  ∃ ref approval, CompletesAt oracles state ref approval event

variable {oracles}

/-! ## The steps of a frozen engine -/

theorem noProgress_of_same {before after : GovernanceState}
    (hpending : after.pendingApprovals = before.pendingApprovals)
    (happrovals : after.approvals = before.approvals) : NoProgress before after :=
  ⟨hpending, congrArg List.length happrovals, fun _ approval hget hstatus =>
    ⟨approval, happrovals ▸ hget, hstatus⟩⟩

/-- Replacing an object by one that is not approved is no progress. -/
theorem noProgress_set {before : GovernanceState} {ref : ℕ} {new : PendingApproval}
    (hnew : new.status ≠ .APPROVED) :
    NoProgress before { before with approvals := before.approvals.set ref new } := by
  refine ⟨rfl, List.length_set, fun ref' approval hget hstatus => ?_⟩
  rcases getElem?_set_eq_some hget with ⟨-, rfl⟩ | ⟨-, hold⟩
  · exact absurd hstatus hnew
  · exact ⟨approval, hold, hstatus⟩

theorem noProgress_timeLockResolved (state : GovernanceState) (ref : ℕ)
    (envelope : TimeLockEnvelope) : NoProgress state (timeLockResolved state ref envelope) := by
  rw [timeLockResolved]
  split
  next hlock =>
    refine ⟨rfl, List.length_modify _ _ _, fun ref' approval hget hstatus => ?_⟩
    simp only [List.getElem?_modify] at hget
    obtain ⟨old, hold, hval⟩ := Option.map_eq_some_iff.mp hget
    split at hval
    · rw [← hval] at hstatus
      cases hstatus
    · exact ⟨old, hold, hval ▸ hstatus⟩
  · exact noProgress_of_same rfl rfl

/-- What remains of a threshold is zero when the count reaches it. -/
theorem remaining_eq_zero {threshold count : ℚ} : max 0 (threshold - count) = 0 ↔ threshold ≤ count := by
  rw [max_eq_left_iff, sub_nonpos]

theorem noProgress_submitApproval {state : GovernanceState} {approvalId : JSString}
    {role : GovernanceRole} {ed25519Signature blsSignature : JSString} {clock : ℕ → ℤ}
    (h : ¬ CompletesApproval oracles state
      (.submitApproval approvalId role ed25519Signature blsSignature clock)) :
    NoProgress state
      (submitApproval oracles state approvalId role ed25519Signature blsSignature clock).1 := by
  simp only [submitApproval]
  split
  · exact noProgress_of_same rfl rfl
  next ref approval hlookup =>
    split
    · exact noProgress_of_same rfl rfl
    next identity hcheck =>
      have hopen := (checkSubmission_ok hcheck).1
      split
      next hremaining =>
        split
        · exact noProgress_set hopen
        next aggregated haggregated =>
          exact absurd ⟨ref, approval, hlookup, identity, aggregated, hcheck,
            remaining_eq_zero.mp hremaining, haggregated⟩ h
      · exact noProgress_set hopen

theorem completesAt_step {state : GovernanceState} {event : GovernanceEvent} {ref : ℕ}
    {old : PendingApproval} (h : CompletesAt oracles state ref old event) :
    state.approvals[ref]? = some old ∧ old.status ≠ .APPROVED ∧
      ∃ new : PendingApproval, (step oracles state event).approvals[ref]? = some new ∧
        new.status = .APPROVED ∧ new.tier = old.tier ∧
        new.timeLockEnvelope = old.timeLockEnvelope := by
  cases event with
  | submitApproval approvalId role ed25519Signature blsSignature clock =>
    obtain ⟨hlookup, identity, aggregated, hcheck, hthreshold, haggregated⟩ := h
    have hget := (lookupApproval_eq_some hlookup).2
    have hlt : ref < state.approvals.length := (List.getElem?_eq_some_iff.mp hget).1
    refine ⟨hget, (checkSubmission_ok hcheck).1, { old with
      approvals := old.approvals.set identity.ed25519PublicKey blsSignature
      status := .APPROVED }, ?_, rfl, rfl, rfl⟩
    simp only [step, submitApproval, hlookup, hcheck, if_pos (remaining_eq_zero.mpr hthreshold),
      haggregated]
    rw [List.getElem?_set_self hlt]
  | _ => cases h

/-- **One step of a frozen engine.** -/
theorem noProgress_iff {state : GovernanceState} {event : GovernanceEvent}
    (hfrozen : Frozen state event) :
    NoProgress state (step oracles state event) ↔ ¬ CompletesApproval oracles state event := by
  constructor
  · rintro h ⟨ref, old, hcompletes⟩
    obtain ⟨hold, hopen, new, hnew, hstatus, -, -⟩ := completesAt_step hcompletes
    obtain ⟨old', hold', happroved⟩ := h.approved ref new hnew hstatus
    rw [hold] at hold'
    exact hopen (Option.some.inj hold' ▸ happroved)
  · intro h
    obtain ⟨emergency, hstate, hactive, -⟩ := hfrozen
    cases event with
    | registerRoleIdentity => exact noProgress_of_same rfl rfl
    | timeLockResolved ref envelope => exact noProgress_timeLockResolved state ref envelope
    | submitApproval => exact noProgress_submitApproval h
    | initiateApproval =>
      have hfilter : state.emergencyState.filter EmergencyState.isActive = some emergency := by
        rw [hstate, Option.filter_some, if_pos hactive]
      simp only [step, initiateApproval, hfilter]
      split
      · exact noProgress_of_same rfl rfl
      · split <;> exact noProgress_of_same rfl rfl
    | triggerEmergency =>
      simp only [step, triggerEmergency]
      split <;> exact noProgress_of_same rfl rfl
    | unfreezeEmergency =>
      simp only [step, unfreezeEmergency]
      split
      · exact noProgress_of_same rfl rfl
      · split <;> exact noProgress_of_same rfl rfl

/-! ## Runs -/

/-- **The freeze.** In a run, the events that meet an active emergency make no progress
exactly when none of them completes an approval. -/
theorem freeze_stops_approvals_iff {start : GovernanceState} {events : List GovernanceEvent} :
    Always (step oracles) start events (fun state event =>
        Frozen state event → NoProgress state (step oracles state event)) ↔
      Always (step oracles) start events (fun state event =>
        Frozen state event → ¬ CompletesApproval oracles state event) := by
  constructor
  · intro h past event rest hcut hfrozen
    exact (noProgress_iff hfrozen).mp (h past event rest hcut hfrozen)
  · intro h past event rest hcut hfrozen
    exact (noProgress_iff hfrozen).mpr (h past event rest hcut hfrozen)

/-- The signatures of an administrator and a treasurer, who sign with their keys. -/
def twoSignatures : InsertionMap GovernanceRole JSString :=
  (InsertionMap.empty.set .ADMIN (js "0xaa")).set .TREASURY (js "0xbb")

/-- An approval is initiated, the emergency triggered, and the approval submitted twice. -/
def frozenSubmissions : List GovernanceEvent :=
  let approvalId := approvalIdOf testOracles (js "tx") 1000 0
  [.registerRoleIdentity .ADMIN (js "0xaa") (js "m/0") (js "0x01"),
    .registerRoleIdentity .TREASURY (js "0xbb") (js "m/1") (js "0x02"),
    .initiateApproval (js "tx") 1000 (js "policy") (fun _ => 0),
    .triggerEmergency (js "breach") (js "ops") twoSignatures (fun _ => 0),
    .submitApproval approvalId .ADMIN (js "0xaa") (js "0x01") (fun _ => 0),
    .submitApproval approvalId .TREASURY (js "0xbb") (js "0x02") (fun _ => 0)]

/-- The second submission completes the approval while the emergency is active. -/
theorem frozen_engine_approves :
    ¬ Always (step testOracles) (newEngine testPolicies) frozenSubmissions (fun state event =>
      Frozen state event → NoProgress state (step testOracles state event)) := by
  intro h
  have hlast := h (frozenSubmissions.take 5) (frozenSubmissions.getLast (by decide)) [] rfl
    ⟨_, by with_unfolding_all rfl, rfl, by rintro clock ⟨⟩; decide⟩
  obtain ⟨old, hold, hstatus⟩ := hlast.approved 0 _ (by with_unfolding_all rfl) rfl
  have hpending : (run (step testOracles) (newEngine testPolicies)
      (frozenSubmissions.take 5)).approvals[0]?.map PendingApproval.status = some .PENDING := by
    with_unfolding_all rfl
  rw [hold] at hpending
  exact absurd (hstatus.symm.trans (Option.some.inj hpending)) (by decide)

end BioFire.Governance
