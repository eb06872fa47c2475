import BioFire.PolicyApprovals
import BioFire.Quorum

/-!
# Entitled roles (`src/lib/governance/governance_engine.ts`)

Which signatures `triggerEmergency` and `createPolicy` count. Both name the roles that may
decide, the one in its docstring and the other in a list that it does not read.

* `hasSigners_iff`: distinct signers of some roles are as many as the signatures that count;
* `only_entitled_roles_iff`: an auditor is counted exactly where one entitled role is missing.
-/

namespace BioFire.Governance

open Runs

/-- Requires 2-of-4 from ADMIN, TREASURY, COMPLIANCE, RISK_OFFICER. -/
def emergencyRoles : List GovernanceRole := [.ADMIN, .TREASURY, .COMPLIANCE, .RISK_OFFICER]

/-- `requiredRoles` of `createPolicy`. -/
def requiredRoles : List GovernanceRole := [.ADMIN, .ADMIN, .COMPLIANCE, .RISK_OFFICER, .TREASURY]

/-- The text that the approvers of an emergency sign. -/
def emergencyMessage (triggerReason : JSString) (_ : GovernanceRole) (now : ℤ) : Bytes :=
  textEncode (js "EMERGENCY:" ++ triggerReason ++ js ":" ++ bigintString now)

section Signers

variable (oracles : GovernanceOracles) (message : GovernanceRole → ℤ → Bytes)
  (roles : List GovernanceRole) (state : GovernanceState)
  (approverSignatures : InsertionMap GovernanceRole JSString) (clock : ℕ → ℤ)

/-- The identity whose signature the loop finds in the `k`-th entry of the map. -/
def signerOf (e : (GovernanceRole × JSString) × ℕ) : Option RoleIdentity :=
  (verifyRoleSignature oracles state e.1.1 (message e.1.1 (clock (2 * e.2))) e.1.2
    (clock (2 * e.2 + 1))).identity

/-- A registered identity of one of the roles, with a valid signature in the map. -/
structure Signs (identity : RoleIdentity) : Prop where
  entitled : identity.role ∈ roles
  signed : ∃ sig k publicKey, approverSignatures.entries[k]? = some (identity.role, sig) ∧
    state.roleIdentities.get publicKey = some identity ∧
    ed25519Check oracles publicKey (message identity.role (clock (2 * k))) sig = .ok true ∧
    signerOf oracles message state clock ((identity.role, sig), k) = some identity

/-- At least `needed` distinct identities of the roles have signed. -/
def HasSigners (needed : ℕ) : Prop :=
  ∃ signers : List RoleIdentity, signers.Nodup ∧ needed ≤ signers.length ∧
    ∀ identity ∈ signers, Signs oracles message roles state approverSignatures clock identity

/-- The entries of some roles whose signatures the loop counts. -/
def counted : List ((GovernanceRole × JSString) × ℕ) :=
  approverSignatures.entries.zipIdx.filter fun e =>
    decide (e.1.1 ∈ roles) && (signerOf oracles message state clock e).isSome

/-- How many there are. -/
def countAmong : ℕ := (counted oracles message roles state approverSignatures clock).length

variable {oracles message roles state approverSignatures clock}

theorem signerOf_eq_some {e : (GovernanceRole × JSString) × ℕ} {identity : RoleIdentity}
    (h : signerOf oracles message state clock e = some identity) :
    identity.role = e.1.1 ∧ ∃ publicKey, state.roleIdentities.get publicKey = some identity ∧
      ed25519Check oracles publicKey (message e.1.1 (clock (2 * e.2))) e.1.2 = .ok true := by
  obtain ⟨publicKey, hget, hrole, hcheck⟩ := verifyRoleSignature_valid h
  exact ⟨hrole, publicKey, hget, hcheck⟩

theorem entries_role_inj {k k' : ℕ} {role : GovernanceRole} {sig sig' : JSString}
    (h : approverSignatures.entries[k]? = some (role, sig))
    (h' : approverSignatures.entries[k']? = some (role, sig')) : k = k' ∧ sig = sig' := by
  have hkeys : ∀ {i : ℕ} {s : JSString}, approverSignatures.entries[i]? = some (role, s) →
      (approverSignatures.entries.map Prod.fst)[i]? = some role := by
    intro i s hi
    rw [List.getElem?_map, hi]
    rfl
  obtain ⟨hlt, hat⟩ := List.getElem?_eq_some_iff.mp (hkeys h)
  obtain ⟨hlt', hat'⟩ := List.getElem?_eq_some_iff.mp (hkeys h')
  obtain rfl := (approverSignatures.nodup.getElem_inj_iff).mp (hat.trans hat'.symm)
  exact ⟨rfl, (Prod.mk.inj (Option.some.inj (h.symm.trans h'))).2⟩

/-- The signers of a list of entries have the roles of the entries. -/
theorem map_role_signers {entries : List ((GovernanceRole × JSString) × ℕ)}
    (h : ∀ e ∈ entries, (signerOf oracles message state clock e).isSome) :
    (entries.filterMap (signerOf oracles message state clock)).map RoleIdentity.role =
      entries.map fun e => e.1.1 := by
  induction entries with
  | nil => rfl
  | cons e entries ih =>
    obtain ⟨identity, hidentity⟩ := Option.isSome_iff_exists.mp (h e List.mem_cons_self)
    rw [List.filterMap_cons_some hidentity, List.map_cons, List.map_cons,
      (signerOf_eq_some hidentity).1, ih fun e' he' => h e' (List.mem_cons_of_mem e he')]

theorem mem_counted {e : (GovernanceRole × JSString) × ℕ} :
    e ∈ counted oracles message roles state approverSignatures clock ↔
      approverSignatures.entries[e.2]? = some e.1 ∧ e.1.1 ∈ roles ∧
        (signerOf oracles message state clock e).isSome := by
  rw [counted, List.mem_filter, List.mem_zipIdx_iff_getElem?, Bool.and_eq_true, decide_eq_true_eq]

theorem map_role_zipIdx (entries : List (GovernanceRole × JSString)) :
    (entries.zipIdx.map fun e => e.1.1) = entries.map Prod.fst := by
  conv_rhs => rw [← List.zipIdx_map_fst 0 entries, List.map_map]
  rfl

/-- **Distinct signers.** They are as many as the signatures that count. -/
theorem hasSigners_iff {needed : ℕ} :
    HasSigners oracles message roles state approverSignatures clock needed ↔
      needed ≤ countAmong oracles message roles state approverSignatures clock := by
  constructor
  · rintro ⟨signers, hnodup, hle, hsigns⟩
    have hroles : (signers.map RoleIdentity.role).Nodup := by
      refine List.Nodup.map_on (fun identity hmem identity' hmem' hrole => ?_) hnodup
      obtain ⟨sig, k, -, hentry, -, -, hsigner⟩ := (hsigns identity hmem).signed
      obtain ⟨sig', k', -, hentry', -, -, hsigner'⟩ := (hsigns identity' hmem').signed
      rw [← hrole] at hentry' hsigner'
      obtain ⟨rfl, rfl⟩ := entries_role_inj hentry hentry'
      exact Option.some.inj (hsigner.symm.trans hsigner')
    have hsub : signers.map RoleIdentity.role ⊆
        (counted oracles message roles state approverSignatures clock).map fun e => e.1.1 := by
      intro role hrole
      obtain ⟨identity, hmem, rfl⟩ := List.mem_map.mp hrole
      obtain ⟨sig, k, -, hentry, -, -, hsigner⟩ := (hsigns identity hmem).signed
      refine List.mem_map.mpr ⟨((identity.role, sig), k), mem_counted.mpr ⟨hentry, ?_, ?_⟩, rfl⟩
      · exact (hsigns identity hmem).entitled
      · rw [hsigner, Option.isSome_some]
    have hlength := (hroles.subperm hsub).length_le
    rw [List.length_map, List.length_map] at hlength
    exact hle.trans hlength
  · intro hle
    have hmap : ((counted oracles message roles state approverSignatures clock).filterMap
        (signerOf oracles message state clock)).map RoleIdentity.role = _ :=
      map_role_signers fun e he => (mem_counted.mp he).2.2
    refine ⟨(counted oracles message roles state approverSignatures clock).filterMap
      (signerOf oracles message state clock), List.Nodup.of_map RoleIdentity.role ?_, ?_, ?_⟩
    · rw [hmap]
      refine List.Nodup.sublist (List.filter_sublist.map _) ?_
      rw [map_role_zipIdx]
      exact approverSignatures.nodup
    · have hlength := congrArg List.length hmap
      rw [List.length_map, List.length_map] at hlength
      rw [hlength]
      exact hle
    · intro identity hmem
      obtain ⟨⟨⟨role, sig⟩, k⟩, he, hsigner⟩ := List.mem_filterMap.mp hmem
      obtain ⟨hentry, hrole, -⟩ := mem_counted.mp he
      obtain ⟨rfl, publicKey, hget, hcheck⟩ := signerOf_eq_some hsigner
      exact ⟨hrole, sig, k, publicKey, hentry, hget, hcheck, hsigner⟩

theorem countAmong_auditor_le :
    countAmong oracles message [.AUDITOR] state approverSignatures clock ≤ 1 := by
  have hroles := List.nodup_iff_count_le_one.mp approverSignatures.nodup .AUDITOR
  rw [← map_role_zipIdx, List.count, List.countP_map] at hroles
  rw [countAmong, counted, ← List.countP_eq_length_filter]
  refine le_trans (List.countP_mono_left fun e _ hpasses => ?_) hroles
  have hrole := of_decide_eq_true ((Bool.and_eq_true _ _).mp hpasses).1
  rw [List.mem_singleton] at hrole
  simp [hrole]

theorem countAmong_add_auditor (hroles : ∀ role, role ∈ roles ↔ role ≠ .AUDITOR) :
    approverSignatures.entries.zipIdx.countP
        (fun e => (signerOf oracles message state clock e).isSome) =
      countAmong oracles message roles state approverSignatures clock +
        countAmong oracles message [.AUDITOR] state approverSignatures clock := by
  rw [countAmong, countAmong, counted, counted, ← List.countP_eq_length_filter,
    ← List.countP_eq_length_filter]
  induction approverSignatures.entries.zipIdx with
  | nil => rfl
  | cons e entries ih =>
    rw [List.countP_cons, List.countP_cons, List.countP_cons, ih]
    by_cases hauditor : e.1.1 = .AUDITOR
    · simp only [hroles, hauditor, List.mem_singleton, ne_eq, not_true_eq_false, decide_false,
        decide_true, Bool.false_and, Bool.true_and, Bool.false_eq_true, if_false]
      omega
    · simp only [hroles, hauditor, List.mem_singleton, ne_eq, not_false_eq_true, decide_false,
        decide_true, Bool.false_and, Bool.true_and, Bool.false_eq_true, if_false]
      omega

/-- Enough signatures have signers of the roles, unless an auditor's makes up for the last. -/
theorem signers_of_enough_iff {needed : ℕ} (hroles : ∀ role, role ∈ roles ↔ role ≠ .AUDITOR) :
    (needed ≤ approverSignatures.entries.zipIdx.countP
        (fun e => (signerOf oracles message state clock e).isSome) →
      HasSigners oracles message roles state approverSignatures clock needed) ↔
    ¬(countAmong oracles message [.AUDITOR] state approverSignatures clock = 1 ∧
      countAmong oracles message roles state approverSignatures clock + 1 = needed) := by
  have hauditor : countAmong oracles message [.AUDITOR] state approverSignatures clock ≤ 1 :=
    countAmong_auditor_le
  rw [hasSigners_iff, countAmong_add_auditor hroles]
  omega

end Signers

/-! ## The two calls -/

variable {oracles : GovernanceOracles}

theorem mem_emergencyRoles (role : GovernanceRole) : role ∈ emergencyRoles ↔ role ≠ .AUDITOR := by
  cases role <;> decide

theorem mem_requiredRoles (role : GovernanceRole) : role ∈ requiredRoles ↔ role ≠ .AUDITOR := by
  cases role <;> decide

theorem countApprovals_policyApproval (state : GovernanceState)
    (approverSignatures : InsertionMap GovernanceRole JSString) (clock : ℕ → ℤ) :
    approvalCount oracles state approverSignatures clock =
      approverSignatures.entries.zipIdx.countP fun e =>
        (signerOf oracles policyMessage state clock e).isSome := by
  rw [approvalCount, countApprovals]
  refine List.countP_congr ?_
  rintro ⟨⟨role, sig⟩, k⟩ -
  rw [signerOf, ← verifyRoleSignature_isSome]
  rfl

theorem countApprovals_emergencyApproval (state : GovernanceState) (triggerReason : JSString)
    (approverSignatures : InsertionMap GovernanceRole JSString) (clock : ℕ → ℤ) :
    countApprovals (emergencyApproval oracles state triggerReason) approverSignatures clock =
      approverSignatures.entries.zipIdx.countP fun e =>
        (signerOf oracles (emergencyMessage triggerReason) state clock e).isSome := by
  rw [countApprovals]
  refine List.countP_congr ?_
  rintro ⟨⟨role, sig⟩, k⟩ -
  rw [signerOf, ← verifyRoleSignature_isSome]
  rfl

/-- **Entitled roles.** `triggerEmergency` and `createPolicy` succeed with enough entitled
signers, except where a valid signature of the auditor stands in for the last of them. -/
theorem only_entitled_roles_iff (oracles : GovernanceOracles)
    (ed25519Sign : Bytes → Bytes → Except JSError Bytes)
    (hsign : ∀ message key, (∃ sig, ed25519Sign message key = .ok sig) ↔ key.length = 32)
    (state : GovernanceState) (approverSignatures : InsertionMap GovernanceRole JSString)
    (clock : ℕ → ℤ) :
    (∀ triggerReason triggeredBy,
      ((∃ emergency, (triggerEmergency oracles state triggerReason triggeredBy approverSignatures
          clock).2 = .ok emergency) →
        HasSigners oracles (emergencyMessage triggerReason) emergencyRoles state approverSignatures
          clock 2) ↔
      ¬(countAmong oracles (emergencyMessage triggerReason) [.AUDITOR] state approverSignatures
          clock = 1 ∧
        countAmong oracles (emergencyMessage triggerReason) emergencyRoles state approverSignatures
          clock = 1)) ∧
    ∀ masterPolicyKey tiers rules,
      (Accepts oracles ed25519Sign masterPolicyKey state approverSignatures clock tiers rules →
        HasSigners oracles policyMessage requiredRoles state approverSignatures clock 3) ↔
      ¬((tiers ≠ [] ∨ rules ≠ []) ∧ CanSign masterPolicyKey ∧
        countAmong oracles policyMessage [.AUDITOR] state approverSignatures clock = 1 ∧
        countAmong oracles policyMessage requiredRoles state approverSignatures clock = 2) := by
  constructor
  · intro triggerReason triggeredBy
    rw [triggerEmergency_ok_iff, countApprovals_emergencyApproval,
      signers_of_enough_iff mem_emergencyRoles]
    omega
  · intro masterPolicyKey tiers rules
    have henough : (3 ≤ approvalCount oracles state approverSignatures clock →
        HasSigners oracles policyMessage requiredRoles state approverSignatures clock 3) ↔
        ¬(countAmong oracles policyMessage [.AUDITOR] state approverSignatures clock = 1 ∧
          countAmong oracles policyMessage requiredRoles state approverSignatures clock + 1 =
            3) := by
      rw [countApprovals_policyApproval]
      exact signers_of_enough_iff mem_requiredRoles
    rw [createPolicy_ok_iff hsign]
    constructor
    · rintro h ⟨hcontent, hkey, hauditor, htwo⟩
      exact henough.mp (fun hmany => h ⟨hmany, hcontent, hkey⟩) ⟨hauditor, by omega⟩
    · rintro h ⟨hmany, hcontent, hkey⟩
      exact henough.mpr (fun hone => h ⟨hcontent, hkey, hone.1, by omega⟩) hmany

/-- Three holders of entitled roles create a policy. -/
theorem three_holders_entitled :
    HasSigners holderOracles policyMessage requiredRoles threeHolders policyApprovals newYear
      3 := by
  refine ((only_entitled_roles_iff holderOracles masterSign masterSign_ok_iff threeHolders
    policyApprovals newYear).2 masterKey [] [panicRule]).mpr ?_ ?_
  · rintro ⟨-, -, hauditor, -⟩
    have hnone : countAmong holderOracles policyMessage [.AUDITOR] threeHolders policyApprovals
        newYear = 0 := by
      decide
    omega
  · exact (createPolicy_ok_iff masterSign_ok_iff).mpr
      ⟨by decide, Or.inr (by simp), canSign_masterKey⟩

/-! ## An auditor's vote -/

/-- An administrator and an auditor. -/
def auditedEngine : GovernanceState :=
  run (step testOracles) (newEngine testPolicies) ((twoSubmissions .ADMIN .AUDITOR).take 2)

/-- Both sign. -/
def auditorAlarms : InsertionMap GovernanceRole JSString :=
  (InsertionMap.empty.set .ADMIN (js "0xaa")).set .AUDITOR (js "0xbb")

/-- The emergency is declared with one entitled signer. -/
theorem auditor_declares_emergency :
    (∃ emergency, (triggerEmergency testOracles auditedEngine (js "drill") (js "alice")
        auditorAlarms fun _ => 0).2 = .ok emergency) ∧
      ¬HasSigners testOracles (emergencyMessage (js "drill")) emergencyRoles auditedEngine
        auditorAlarms (fun _ => 0) 2 := by
  refine ⟨⟨_, by with_unfolding_all rfl⟩, ?_⟩
  have hone : countAmong testOracles (emergencyMessage (js "drill")) emergencyRoles auditedEngine
      auditorAlarms (fun _ => 0) = 1 := by
    with_unfolding_all rfl
  rw [hasSigners_iff, hone]
  decide

end BioFire.Governance
