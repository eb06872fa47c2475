import BioFire.EmergencyFreeze

/-!
# The unfreeze quorum

An emergency starts with the approvers of its trigger in `unfreezeApprovals`, and
`unfreezeEmergency` counts that list.

* `step_emergency`: what one event can do to the emergency;
* `emergencyInvariant_step`: whoever is counted has approved the trigger or signed an unfreeze;
* `unfrozen_by_superMajority`: a freeze is lifted by enough unfreeze signatures in every
  run in which the approvers who only signed the trigger do not tip the balance.
-/

namespace BioFire.Governance

open Runs

variable (oracles : GovernanceOracles)

/-- At least `count` distinct keys satisfy `p`. -/
def AtLeast (count : ℕ) (p : JSString → Prop) : Prop :=
  ∃ keys : List JSString, keys.Nodup ∧ count ≤ keys.length ∧ ∀ key ∈ keys, p key

theorem AtLeast.mono {count : ℕ} {p p' : JSString → Prop} (h : AtLeast count p)
    (hp : ∀ key, p key → p' key) : AtLeast count p' :=
  h.imp fun _ hkeys => ⟨hkeys.1, hkeys.2.1, fun key hmem => hp key (hkeys.2.2 key hmem)⟩

/-- The signed text of an unfreeze. -/
def unfreezeMessage (triggeredAt : ℤ) : Bytes :=
  textEncode (js "UNFREEZE:" ++ bigintString triggeredAt)

/-- The event presents a valid signature over the unfreeze text of the active emergency
triggered at `triggeredAt`, by the registered identity `publicKey`. -/
def SignsUnfreeze (triggeredAt : ℤ) (publicKey : JSString) (state : GovernanceState)
    (event : GovernanceEvent) : Prop :=
  ∃ approverSignatures clock emergency identity signature,
    event = .unfreezeEmergency approverSignatures clock ∧
    state.emergencyState = some emergency ∧ emergency.isActive = true ∧
    emergency.triggeredAt = triggeredAt ∧ state.roleIdentities.get publicKey = some identity ∧
    (identity.role, signature) ∈ approverSignatures.entries ∧
    ed25519Check oracles publicKey (unfreezeMessage triggeredAt) signature = .ok true

/-- The event triggers an emergency at `triggeredAt`, with `publicKey` among the
approvers. -/
def ApprovesTrigger (triggeredAt : ℤ) (publicKey : JSString) (state : GovernanceState)
    (event : GovernanceEvent) : Prop :=
  ∃ triggerReason triggeredBy approverSignatures clock emergency,
    event = .triggerEmergency triggerReason triggeredBy approverSignatures clock ∧
    (triggerEmergency oracles state triggerReason triggeredBy approverSignatures clock).2 =
      .ok emergency ∧
    emergency.triggeredAt = triggeredAt ∧ publicKey ∈ emergency.unfreezeApprovals

/-- `publicKey` is counted by the unfreeze call: it is on the list of the emergency or
its signature in the call is accepted. -/
def Counted (state : GovernanceState) (emergency : EmergencyState)
    (approverSignatures : InsertionMap GovernanceRole JSString) (clock : ℕ → ℤ)
    (publicKey : JSString) : Prop :=
  publicKey ∈ emergency.unfreezeApprovals ∨
    ∃ role signature k identity, (role, signature) ∈ approverSignatures.entries ∧
      (verifyRoleSignature oracles state role (unfreezeMessage emergency.triggeredAt) signature
        (clock k)).identity = some identity ∧ identity.ed25519PublicKey = publicKey

/-- The event makes the active emergency `emergency` inactive. -/
def Lifts (emergency : EmergencyState) (state : GovernanceState) (event : GovernanceEvent) : Prop :=
  state.emergencyState = some emergency ∧ emergency.isActive = true ∧
    ∃ emergency', (step oracles state event).emergencyState = some emergency' ∧
      emergency'.isActive = false

variable {oracles}

/-! ## What an accepted signature adds -/

/-- The key of an accepted signature is registered, under its role. -/
theorem verifyRoleSignature_key {state : GovernanceState} (hkeyed : Keyed state)
    {role : GovernanceRole} {message : Bytes} {signatureHex : JSString} {now : ℤ}
    {identity : RoleIdentity}
    (h : (verifyRoleSignature oracles state role message signatureHex now).identity =
      some identity) :
    state.roleIdentities.get identity.ed25519PublicKey = some identity ∧ identity.role = role ∧
      ed25519Check oracles identity.ed25519PublicKey message signatureHex = .ok true := by
  obtain ⟨publicKey, hget, hrole, hcheck⟩ := verifyRoleSignature_valid h
  obtain rfl := hkeyed publicKey identity hget
  exact ⟨hget, hrole, hcheck⟩

/-- Each approver of a trigger is the key of one of the presented signatures. -/
theorem mem_emergencyApprovers {state : GovernanceState} {triggerReason publicKey : JSString}
    {clock : ℕ → ℤ} {entries : List ((GovernanceRole × JSString) × ℕ)}
    (h : publicKey ∈ emergencyApprovers oracles state triggerReason clock entries) :
    ∃ entry ∈ entries, ∃ message now identity,
      (verifyRoleSignature oracles state entry.1.1 message entry.1.2 now).identity =
        some identity ∧ identity.ed25519PublicKey = publicKey := by
  induction entries with
  | nil => cases h
  | cons entry entries ih =>
    obtain ⟨⟨role, sig⟩, k⟩ := entry
    have hrest : publicKey ∈ emergencyApprovers oracles state triggerReason clock entries →
        ∃ entry ∈ ((role, sig), k) :: entries, ∃ message now identity,
          (verifyRoleSignature oracles state entry.1.1 message entry.1.2 now).identity =
            some identity ∧ identity.ed25519PublicKey = publicKey := by
      intro hmem
      obtain ⟨entry, hentry, hvalid⟩ := ih hmem
      exact ⟨entry, List.mem_cons_of_mem _ hentry, hvalid⟩
    simp only [emergencyApprovers] at h
    split at h
    next identity _ hidentity =>
      rcases List.mem_cons.mp h with rfl | hmem
      · exact ⟨_, List.mem_cons_self, _, _, identity, hidentity, rfl⟩
      · exact hrest hmem
    · exact hrest h

/-- The approvers of a trigger are distinct, as their roles are. -/
theorem nodup_emergencyApprovers {state : GovernanceState} (hkeyed : Keyed state)
    (triggerReason : JSString) (clock : ℕ → ℤ) {entries : List ((GovernanceRole × JSString) × ℕ)}
    (hroles : (entries.map fun e => e.1.1).Nodup) :
    (emergencyApprovers oracles state triggerReason clock entries).Nodup := by
  induction entries with
  | nil => exact List.nodup_nil
  | cons entry entries ih =>
    obtain ⟨⟨role, sig⟩, k⟩ := entry
    rw [List.map_cons, List.nodup_cons] at hroles
    simp only [emergencyApprovers]
    split
    next identity _ hidentity =>
      refine List.nodup_cons.mpr ⟨fun hmem => hroles.1 ?_, ih hroles.2⟩
      obtain ⟨other, hother, message, now, identity', hidentity', hkey⟩ :=
        mem_emergencyApprovers hmem
      obtain ⟨hget, hrole, -⟩ := verifyRoleSignature_key hkeyed hidentity
      obtain ⟨hget', hrole', -⟩ := verifyRoleSignature_key hkeyed hidentity'
      rw [hkey, hget] at hget'
      obtain rfl := Option.some.inj hget'
      rw [← hrole, hrole']
      exact List.mem_map.mpr ⟨other, hother, rfl⟩
    · exact ih hroles.2

variable (oracles) in
/-- What the loop of `unfreezeEmergency` collects: distinct keys, each from the list it
starts with or from an accepted signature. -/
theorem unfreezeApprovers_spec (state : GovernanceState) (triggeredAt : ℤ) (clock : ℕ → ℤ)
    (entries : List ((GovernanceRole × JSString) × ℕ)) {approvers : List JSString}
    (hnodup : approvers.Nodup) :
    (unfreezeApprovers oracles state triggeredAt clock entries approvers).Nodup ∧
      ∀ publicKey ∈ unfreezeApprovers oracles state triggeredAt clock entries approvers,
        publicKey ∈ approvers ∨ ∃ entry ∈ entries, ∃ identity,
          (verifyRoleSignature oracles state entry.1.1 (unfreezeMessage triggeredAt) entry.1.2
            (clock entry.2)).identity = some identity ∧ identity.ed25519PublicKey = publicKey := by
  induction entries generalizing approvers with
  | nil => exact ⟨hnodup, fun publicKey hmem => Or.inl hmem⟩
  | cons entry entries ih =>
    obtain ⟨⟨role, sig⟩, k⟩ := entry
    have hrest : ∀ {approvers' : List JSString} {publicKey : JSString},
        (publicKey ∈ approvers' → publicKey ∈ approvers ∨
          ∃ entry ∈ ((role, sig), k) :: entries, ∃ identity,
            (verifyRoleSignature oracles state entry.1.1 (unfreezeMessage triggeredAt) entry.1.2
              (clock entry.2)).identity = some identity ∧
                identity.ed25519PublicKey = publicKey) →
        approvers'.Nodup →
        publicKey ∈ unfreezeApprovers oracles state triggeredAt clock entries approvers' →
        publicKey ∈ approvers ∨ ∃ entry ∈ ((role, sig), k) :: entries, ∃ identity,
          (verifyRoleSignature oracles state entry.1.1 (unfreezeMessage triggeredAt) entry.1.2
            (clock entry.2)).identity = some identity ∧ identity.ed25519PublicKey = publicKey := by
      intro approvers' publicKey hstart hnodup' hmem
      rcases (ih hnodup').2 publicKey hmem with hold | ⟨entry, hentry, hvalid⟩
      · exact hstart hold
      · exact Or.inr ⟨entry, List.mem_cons_of_mem _ hentry, hvalid⟩
    simp only [unfreezeApprovers]
    split
    next identity _ hidentity =>
      split
      · exact ⟨(ih hnodup).1, fun publicKey => hrest Or.inl hnodup⟩
      next hnew =>
        have hnodup' : (approvers ++ [identity.ed25519PublicKey]).Nodup :=
          List.nodup_append.mpr ⟨hnodup, List.nodup_singleton _, by
            rintro a ha b hb rfl
            exact hnew (List.mem_singleton.mp hb ▸ ha)⟩
        refine ⟨(ih hnodup').1, fun publicKey => hrest (fun hmem => ?_) hnodup'⟩
        rcases List.mem_append.mp hmem with hold | hadded
        · exact Or.inl hold
        · exact Or.inr ⟨_, List.mem_cons_self, identity, hidentity, (List.mem_singleton.mp hadded).symm⟩
    · exact ⟨(ih hnodup).1, fun publicKey => hrest Or.inl hnodup⟩

/-! ## What one event does to the emergency -/

/-- The ways in which an event leads to an emergency state. -/
inductive EmergencyChange (oracles : GovernanceOracles) (state : GovernanceState) :
    GovernanceEvent → EmergencyState → Prop
  | kept {event : GovernanceEvent} {emergency : EmergencyState}
      (hold : state.emergencyState = some emergency) :
      EmergencyChange oracles state event emergency
  | triggered {triggerReason triggeredBy : JSString}
      {approverSignatures : InsertionMap GovernanceRole JSString} {clock : ℕ → ℤ}
      {emergency : EmergencyState}
      (hnew : (triggerEmergency oracles state triggerReason triggeredBy approverSignatures
        clock).2 = .ok emergency) :
      EmergencyChange oracles state
        (.triggerEmergency triggerReason triggeredBy approverSignatures clock) emergency
  | collected {approverSignatures : InsertionMap GovernanceRole JSString} {clock : ℕ → ℤ}
      {emergency : EmergencyState} (isActive : Bool)
      (hold : state.emergencyState = some emergency) (hactive : emergency.isActive = true)
      (hcount : isActive = false → emergency.requiredUnfreezeApprovals ≤
        (unfreezeApprovers oracles state emergency.triggeredAt clock
          approverSignatures.entries.zipIdx emergency.unfreezeApprovals).length) :
      EmergencyChange oracles state (.unfreezeEmergency approverSignatures clock)
        { emergency with
          unfreezeApprovals := unfreezeApprovers oracles state emergency.triggeredAt clock
            approverSignatures.entries.zipIdx emergency.unfreezeApprovals
          isActive }

/-- A triggered emergency is active, and its approvers are those of the trigger. -/
theorem triggerEmergency_ok {state : GovernanceState} {triggerReason triggeredBy : JSString}
    {approverSignatures : InsertionMap GovernanceRole JSString} {clock : ℕ → ℤ}
    {emergency : EmergencyState}
    (h : (triggerEmergency oracles state triggerReason triggeredBy approverSignatures clock).2 =
      .ok emergency) :
    (triggerEmergency oracles state triggerReason triggeredBy approverSignatures
        clock).1.emergencyState = some emergency ∧ emergency.isActive = true ∧
      emergency.unfreezeApprovals =
        emergencyApprovers oracles state triggerReason clock approverSignatures.entries.zipIdx := by
  simp only [triggerEmergency] at h ⊢
  split at h
  · cases h
  next hmany =>
    obtain rfl := Except.ok.inj h
    rw [if_neg hmany]
    exact ⟨rfl, rfl, rfl⟩

/-- **One event.** Every emergency state after an event came about in one of the ways
of `EmergencyChange`. -/
theorem step_emergency {state : GovernanceState} {event : GovernanceEvent}
    {emergency : EmergencyState}
    (h : (step oracles state event).emergencyState = some emergency) :
    EmergencyChange oracles state event emergency := by
  cases event with
  | registerRoleIdentity => exact .kept h
  | initiateApproval =>
    obtain ⟨pendingApprovals, approvals, timeLocks, hwrites⟩ := initiateApproval_writes state _ _ _ _
    rw [step, hwrites] at h
    exact .kept h
  | timeLockResolved =>
    obtain ⟨approvals, timeLocks, hwrites⟩ := timeLockResolved_writes state _ _
    rw [step, hwrites] at h
    exact .kept h
  | submitApproval =>
    obtain ⟨approvals, hwrites⟩ := submitApproval_writes state _ _ _ _ _
    rw [step, hwrites] at h
    exact .kept h
  | triggerEmergency triggerReason triggeredBy approverSignatures clock =>
    cases hresult : (triggerEmergency oracles state triggerReason triggeredBy approverSignatures
        clock).2 with
    | error e =>
      refine .kept ?_
      simp only [step, triggerEmergency] at h hresult
      split at h
      · exact h
      next hmany =>
        rw [if_neg hmany] at hresult
        cases hresult
    | ok new =>
      rw [step, (triggerEmergency_ok hresult).1] at h
      obtain rfl := Option.some.inj h
      exact .triggered hresult
  | unfreezeEmergency approverSignatures clock =>
    simp only [step, unfreezeEmergency] at h
    split at h
    · exact .kept h
    next old hold =>
      obtain ⟨hold, hactive⟩ := Option.filter_eq_some_iff.mp hold
      split at h
      next hfew =>
        obtain rfl := Option.some.inj h
        exact hactive ▸ .collected true hold hactive (by rintro ⟨⟩)
      next hmany =>
        obtain rfl := Option.some.inj h
        exact .collected false hold hactive fun _ => not_lt.mp hmany

/-! ## The invariant -/

/-- The list of an emergency has distinct keys, each of an approver of its trigger or of
a signer of its unfreeze. -/
structure EmergencyInvariant (oracles : GovernanceOracles) (start : GovernanceState)
    (past : List GovernanceEvent) (state : GovernanceState) : Prop where
  keyed : Keyed state
  nodup : ∀ emergency, state.emergencyState = some emergency → emergency.unfreezeApprovals.Nodup
  origin : ∀ emergency, state.emergencyState = some emergency →
    ∀ publicKey ∈ emergency.unfreezeApprovals,
      Occurs (step oracles) start past (ApprovesTrigger oracles emergency.triggeredAt publicKey) ∨
        Occurs (step oracles) start past (SignsUnfreeze oracles emergency.triggeredAt publicKey)

theorem signsUnfreeze_of_accepted {state : GovernanceState} (hkeyed : Keyed state)
    {approverSignatures : InsertionMap GovernanceRole JSString} {clock : ℕ → ℤ}
    {emergency : EmergencyState} (hstate : state.emergencyState = some emergency)
    (hactive : emergency.isActive = true) {role : GovernanceRole} {signature : JSString} {now : ℤ}
    {identity : RoleIdentity} (hmem : (role, signature) ∈ approverSignatures.entries)
    (hidentity : (verifyRoleSignature oracles state role (unfreezeMessage emergency.triggeredAt)
      signature now).identity = some identity) :
    SignsUnfreeze oracles emergency.triggeredAt identity.ed25519PublicKey state
      (.unfreezeEmergency approverSignatures clock) := by
  obtain ⟨hget, rfl, hcheck⟩ := verifyRoleSignature_key hkeyed hidentity
  exact ⟨approverSignatures, clock, emergency, identity, signature, rfl, hstate, hactive, rfl, hget,
    hmem, hcheck⟩

theorem emergencyInvariant_step {start : GovernanceState} {past : List GovernanceEvent}
    (event : GovernanceEvent)
    (h : EmergencyInvariant oracles start past (run (step oracles) start past)) :
    EmergencyInvariant oracles start (past ++ [event])
      (step oracles (run (step oracles) start past) event) := by
  have hearlier : ∀ {triggeredAt : ℤ} {publicKey : JSString},
      Occurs (step oracles) start past (ApprovesTrigger oracles triggeredAt publicKey) ∨
        Occurs (step oracles) start past (SignsUnfreeze oracles triggeredAt publicKey) →
      Occurs (step oracles) start (past ++ [event])
          (ApprovesTrigger oracles triggeredAt publicKey) ∨
        Occurs (step oracles) start (past ++ [event])
          (SignsUnfreeze oracles triggeredAt publicKey) :=
    Or.imp (fun ho => occurs_concat.mpr (Or.inl ho)) fun ho => occurs_concat.mpr (Or.inl ho)
  refine ⟨keyed_step h.keyed event, fun emergency hnew => ?_, fun emergency hnew => ?_⟩
  · cases step_emergency hnew with
    | kept hold => exact h.nodup emergency hold
    | @triggered triggerReason _ approverSignatures clock _ htrigger =>
      rw [(triggerEmergency_ok htrigger).2.2]
      refine nodup_emergencyApprovers h.keyed triggerReason clock ?_
      have hroles := approverSignatures.nodup
      rwa [← List.zipIdx_map_fst 0 approverSignatures.entries, List.map_map] at hroles
    | @collected approverSignatures clock old _ hold _ _ =>
      exact (unfreezeApprovers_spec oracles _ old.triggeredAt clock approverSignatures.entries.zipIdx
        (h.nodup old hold)).1
  · cases step_emergency hnew with
    | kept hold => exact fun publicKey hmem => hearlier (h.origin emergency hold publicKey hmem)
    | triggered htrigger =>
      intro publicKey hmem
      exact Or.inl (occurs_concat.mpr (Or.inr ⟨_, _, _, _, _, rfl, htrigger, rfl, hmem⟩))
    | @collected approverSignatures clock old _ hold hactive _ =>
      intro publicKey hmem
      rcases (unfreezeApprovers_spec oracles _ old.triggeredAt clock approverSignatures.entries.zipIdx
        (h.nodup old hold)).2 publicKey hmem with hlisted | ⟨entry, hentry, identity, hvalid, rfl⟩
      · exact hearlier (h.origin old hold publicKey hlisted)
      · have hsigned := List.fst_mem_of_mem_zipIdx hentry
        exact Or.inr (occurs_concat.mpr (Or.inr
          (signsUnfreeze_of_accepted h.keyed hold hactive hsigned hvalid)))

variable (oracles) in
theorem emergencyInvariant_run (policies : InsertionMap JSString GovernancePolicy)
    (events : List GovernanceEvent) :
    EmergencyInvariant oracles (newEngine policies) events
      (run (step oracles) (newEngine policies) events) := by
  have hstart : EmergencyInvariant oracles (newEngine policies) [] (newEngine policies) := by
    refine ⟨fun _ _ hget => ?_, fun _ hget => ?_, fun _ hget => ?_⟩ <;> cases hget
  have hall : Always (step oracles) (newEngine policies) events (fun _ _ => True) :=
    fun _ _ _ _ => trivial
  exact run_induction _ hstart (fun _ event h _ => emergencyInvariant_step event h) hall

/-! ## Lifting the freeze -/

/-- If the unfreeze call counts as many keys as are required, then it does so without
the approvers of the trigger that have not signed the unfreeze. -/
def CountsWithoutTrigger (oracles : GovernanceOracles) (start : GovernanceState)
    (past : List GovernanceEvent) (event : GovernanceEvent) : Prop :=
  ∀ approverSignatures clock emergency, event = .unfreezeEmergency approverSignatures clock →
    (run (step oracles) start past).emergencyState = some emergency → emergency.isActive = true →
    AtLeast emergency.requiredUnfreezeApprovals
      (Counted oracles (run (step oracles) start past) emergency approverSignatures clock) →
    AtLeast emergency.requiredUnfreezeApprovals fun publicKey =>
      Counted oracles (run (step oracles) start past) emergency approverSignatures clock publicKey ∧
        (Occurs (step oracles) start past (ApprovesTrigger oracles emergency.triggeredAt publicKey) →
          Occurs (step oracles) start (past ++ [event])
            (SignsUnfreeze oracles emergency.triggeredAt publicKey))

/-- Only an unfreeze call that counts enough keys lifts a freeze. -/
theorem counted_of_lifts {state : GovernanceState} {event : GovernanceEvent}
    {emergency : EmergencyState} (hnodup : emergency.unfreezeApprovals.Nodup)
    (h : Lifts oracles emergency state event) :
    ∃ approverSignatures clock, event = .unfreezeEmergency approverSignatures clock ∧
      AtLeast emergency.requiredUnfreezeApprovals
        (Counted oracles state emergency approverSignatures clock) := by
  obtain ⟨hstate, hactive, emergency', hnew, hlifted⟩ := h
  cases step_emergency hnew with
  | kept hold =>
    rw [hstate] at hold
    rw [← Option.some.inj hold, hactive] at hlifted
    cases hlifted
  | triggered htrigger =>
    rw [(triggerEmergency_ok htrigger).2.1] at hlifted
    cases hlifted
  | @collected approverSignatures clock old _ hold _ hcount =>
    rw [hstate] at hold
    obtain rfl := Option.some.inj hold
    obtain ⟨hdistinct, hmem⟩ := unfreezeApprovers_spec oracles state
      emergency.triggeredAt clock approverSignatures.entries.zipIdx hnodup
    refine ⟨approverSignatures, clock, rfl, _, hdistinct, hcount hlifted, fun publicKey hkey => ?_⟩
    rcases hmem publicKey hkey with hlisted | ⟨entry, hentry, identity, hvalid, hpub⟩
    · exact Or.inl hlisted
    · exact Or.inr ⟨entry.1.1, entry.1.2, entry.2, identity, List.fst_mem_of_mem_zipIdx hentry,
        hvalid, hpub⟩

/-- **The unfreeze quorum.** In a run in which no count rests on approvers that only
signed the trigger, a freeze is lifted by as many unfreeze signers as are required. -/
theorem unfrozen_by_superMajority {policies : InsertionMap JSString GovernancePolicy}
    {events : List GovernanceEvent}
    (h : ∀ past event rest, events = past ++ event :: rest →
      CountsWithoutTrigger oracles (newEngine policies) past event)
    {past rest : List GovernanceEvent} {event : GovernanceEvent}
    (hcut : events = past ++ event :: rest) {emergency : EmergencyState}
    (hlifts : Lifts oracles emergency (run (step oracles) (newEngine policies) past) event) :
    AtLeast emergency.requiredUnfreezeApprovals fun publicKey =>
      Occurs (step oracles) (newEngine policies) (past ++ [event])
        (SignsUnfreeze oracles emergency.triggeredAt publicKey) := by
  have hinv := emergencyInvariant_run oracles policies past
  have hstate := hlifts.1
  have hactive := hlifts.2.1
  obtain ⟨approverSignatures, clock, rfl, hcounted⟩ :=
    counted_of_lifts (hinv.nodup emergency hstate) hlifts
  refine (h past _ rest hcut approverSignatures clock emergency rfl hstate hactive hcounted).mono ?_
  rintro publicKey ⟨hlisted | ⟨role, signature, k, identity, hmem, hvalid, rfl⟩, htrigger⟩
  · rcases hinv.origin emergency hstate publicKey hlisted with happroved | hsigned
    · exact htrigger happroved
    · exact occurs_concat.mpr (Or.inl hsigned)
  · exact occurs_concat.mpr (Or.inr
      (signsUnfreeze_of_accepted hinv.keyed hstate hactive hmem hvalid))

/-! ## Three holders -/

/-- Three identities are registered, and the first two trigger an emergency. -/
def triggeredByTwo : List GovernanceEvent :=
  [.registerRoleIdentity .ADMIN (js "0xaa") (js "m/0") (js "0x01"),
    .registerRoleIdentity .TREASURY (js "0xbb") (js "m/1") (js "0x02"),
    .registerRoleIdentity .COMPLIANCE (js "0xcc") (js "m/2") (js "0x03"),
    .triggerEmergency (js "breach") (js "ops") twoSignatures (fun _ => 0)]

def testEmergency : EmergencyState where
  isActive := true
  triggeredBy := js "ops"
  triggerReason := js "breach"
  triggeredAt := 0
  expiresAt := 86400000
  requiredUnfreezeApprovals := 3
  unfreezeApprovals := [js "0xaa", js "0xbb"]

/-- The engine after `triggeredByTwo`. -/
def triggeredEngine : GovernanceState :=
  run (step testOracles) (newEngine testPolicies) triggeredByTwo

/-- Nobody signs an unfreeze before the emergency is triggered. -/
theorem no_unfreeze_before {triggeredAt : ℤ} {publicKey : JSString} :
    ¬ Occurs (step testOracles) (newEngine testPolicies) triggeredByTwo
      (SignsUnfreeze testOracles triggeredAt publicKey) := by
  rintro ⟨past, event, rest, hcut, approverSignatures, clock, _, _, _, rfl, -⟩
  have hmem := hcut ▸ List.mem_append_right past List.mem_cons_self
  simp [triggeredByTwo] at hmem

/-- One compliance officer lifts the freeze. -/
theorem one_signature_unfreezes :
    Lifts testOracles testEmergency triggeredEngine
        (.unfreezeEmergency (InsertionMap.empty.set .COMPLIANCE (js "0xcc")) fun _ => 1) ∧
      ¬ AtLeast testEmergency.requiredUnfreezeApprovals fun publicKey =>
        Occurs (step testOracles) (newEngine testPolicies)
          (triggeredByTwo ++
            [.unfreezeEmergency (InsertionMap.empty.set .COMPLIANCE (js "0xcc")) fun _ => 1])
          (SignsUnfreeze testOracles testEmergency.triggeredAt publicKey) := by
  refine ⟨⟨by with_unfolding_all rfl, rfl, _, by with_unfolding_all rfl, rfl⟩, ?_⟩
  rintro ⟨keys, hnodup, hlen, hsigned⟩
  have hone : ∀ publicKey ∈ keys, publicKey = js "0xcc" := by
    intro publicKey hkey
    rcases occurs_concat.mp (hsigned publicKey hkey) with hbefore | hlast
    · exact absurd hbefore no_unfreeze_before
    · obtain ⟨approverSignatures, _, _, identity, signature, hevent, -, -, -, hget, hmem, -⟩ := hlast
      have hsignatures := (GovernanceEvent.unfreezeEmergency.inj hevent).1
      have hentries : approverSignatures.entries = [(.COMPLIANCE, js "0xcc")] := by
        rw [← hsignatures]
        rfl
      have hrole : identity.role = .COMPLIANCE := by
        rw [hentries, List.mem_singleton] at hmem
        exact congrArg Prod.fst hmem
      have hregistered := InsertionMap.get_eq_some_iff.mp hget
      have hidentities : (run (step testOracles) (newEngine testPolicies)
          triggeredByTwo).roleIdentities.entries =
            [(js "0xaa", ⟨.ADMIN, js "0xaa", js "0x01", js "m/0", none, none⟩),
              (js "0xbb", ⟨.TREASURY, js "0xbb", js "0x02", js "m/1", none, none⟩),
              (js "0xcc", ⟨.COMPLIANCE, js "0xcc", js "0x03", js "m/2", none, none⟩)] := by
        with_unfolding_all rfl
      rw [hidentities] at hregistered
      simp only [List.mem_cons, Prod.mk.injEq, List.not_mem_nil, or_false] at hregistered
      rcases hregistered with ⟨-, rfl⟩ | ⟨-, rfl⟩ | ⟨hcc, -⟩
      · cases hrole
      · cases hrole
      · exact hcc
  obtain ⟨n, hn⟩ : ∃ n, keys = List.replicate n (js "0xcc") :=
    ⟨_, List.eq_replicate_iff.mpr ⟨rfl, hone⟩⟩
  rw [hn, List.nodup_replicate] at hnodup
  rw [hn, List.length_replicate] at hlen
  exact absurd (hlen.trans hnodup) (by decide)

/-- The unfreeze signed by all three. -/
def unfreezeByThree : GovernanceEvent :=
  .unfreezeEmergency (twoSignatures.set .COMPLIANCE (js "0xcc")) fun _ => 1

theorem signs_unfreezeByThree :
    ∀ publicKey ∈ [js "0xaa", js "0xbb", js "0xcc"],
      SignsUnfreeze testOracles 0 publicKey triggeredEngine unfreezeByThree := by
  have hsigns : ∀ (publicKey : JSString) (identity : RoleIdentity),
      triggeredEngine.roleIdentities.get publicKey = some identity →
      (identity.role, publicKey) ∈ (twoSignatures.set .COMPLIANCE (js "0xcc")).entries →
      ed25519Check testOracles publicKey (unfreezeMessage 0) publicKey = .ok true →
      SignsUnfreeze testOracles 0 publicKey triggeredEngine unfreezeByThree :=
    fun publicKey identity hget hmem hcheck =>
      ⟨_, _, testEmergency, identity, publicKey, rfl, by with_unfolding_all rfl, rfl, rfl, hget, hmem,
        hcheck⟩
  intro publicKey hmem
  simp only [List.mem_cons, List.not_mem_nil, or_false] at hmem
  rcases hmem with rfl | rfl | rfl
  · exact hsigns _ ⟨.ADMIN, js "0xaa", js "0x01", js "m/0", none, none⟩
      (by with_unfolding_all rfl) (by decide) (by decide)
  · exact hsigns _ ⟨.TREASURY, js "0xbb", js "0x02", js "m/1", none, none⟩
      (by with_unfolding_all rfl) (by decide) (by decide)
  · exact hsigns _ ⟨.COMPLIANCE, js "0xcc", js "0x03", js "m/2", none, none⟩
      (by with_unfolding_all rfl) (by decide) (by decide)

theorem unfrozen_by_superMajority_three :
    Lifts testOracles testEmergency triggeredEngine unfreezeByThree ∧
      AtLeast 3 fun publicKey =>
        Occurs (step testOracles) (newEngine testPolicies) (triggeredByTwo ++ [unfreezeByThree])
          (SignsUnfreeze testOracles 0 publicKey) := by
  have hlifts : Lifts testOracles testEmergency triggeredEngine unfreezeByThree :=
    ⟨by with_unfolding_all rfl, rfl, _, by with_unfolding_all rfl, rfl⟩
  refine ⟨hlifts, unfrozen_by_superMajority (fun past event rest hcut => ?_)
    (rfl : triggeredByTwo ++ [unfreezeByThree] = triggeredByTwo ++ unfreezeByThree :: []) hlifts⟩
  rcases concat_eq_iff.mp hcut with ⟨-, rfl, rfl⟩ | ⟨rest', -, hbefore⟩
  · intro approverSignatures clock emergency hevent hstate _ _
    have hsame : some testEmergency = some emergency := hlifts.1.symm.trans hstate
    obtain rfl := Option.some.inj hsame
    obtain ⟨rfl, rfl⟩ := GovernanceEvent.unfreezeEmergency.inj hevent
    refine ⟨[js "0xaa", js "0xbb", js "0xcc"], by decide, by decide, fun publicKey hmem => ⟨?_, ?_⟩⟩
    · simp only [List.mem_cons, List.not_mem_nil, or_false] at hmem
      rcases hmem with rfl | rfl | rfl
      · exact Or.inl (by decide)
      · exact Or.inl (by decide)
      · exact Or.inr ⟨.COMPLIANCE, js "0xcc", 0, _, by decide, by with_unfolding_all rfl, rfl⟩
    · exact fun _ => occurs_concat.mpr (Or.inr (signs_unfreezeByThree publicKey hmem))
  · intro approverSignatures clock _ hevent
    have hmem := hbefore ▸ List.mem_append_right past List.mem_cons_self
    rw [hevent] at hmem
    simp [triggeredByTwo] at hmem

end BioFire.Governance
