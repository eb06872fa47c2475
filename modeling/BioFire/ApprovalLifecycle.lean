import BioFire.EmergencyFreeze

/-!
# The life of an approval

An approval of a tier with a time lock starts `TIME_LOCKED`. The promise behind the
lock writes `PENDING` whatever the status is by then, and `submitApproval` looks for
`APPROVED` only: no approval ever becomes `EXPIRED`.

* `approved_final_iff`: an approved approval stays so unless its promise comes late;
* `approved_after_timeLock_iff`: which runs keep the time lock;
* `expiry_respected`: which runs keep the expiry.
-/

namespace BioFire.Governance

open Runs

variable {oracles : GovernanceOracles}

/-! ## What an event does to one approval -/

variable (oracles) in
theorem initiateApproval_cases (state : GovernanceState) (transactionHash : JSString)
    (amountUSD : ℚ) (policyId : JSString) (clock : ℕ → ℤ) :
    (initiateApproval oracles state transactionHash amountUSD policyId clock).1 = state ∨
      ∃ (approval : PendingApproval) (pendingApprovals : InsertionMap JSString ℕ),
        approval.timeLockEnvelope = none ∧
        (initiateApproval oracles state transactionHash amountUSD policyId clock).1 =
          { state with
            approvals := state.approvals ++ [approval]
            timeLocks :=
              if 0 < approval.tier.timeLockSeconds then state.timeLocks ++ [state.approvals.length]
              else state.timeLocks
            pendingApprovals } := by
  rw [initiateApproval]
  split
  · exact Or.inl rfl
  split
  · exact Or.inl rfl
  split
  · exact Or.inl rfl
  · exact Or.inr ⟨_, _, rfl, rfl⟩

theorem length_le_step (state : GovernanceState) (event : GovernanceEvent) :
    state.approvals.length ≤ (step oracles state event).approvals.length := by
  cases event with
  | registerRoleIdentity => exact le_rfl
  | initiateApproval transactionHash amountUSD policyId clock =>
    rcases initiateApproval_cases oracles state transactionHash amountUSD policyId
      clock with hsame | ⟨approval, _, -, hnew⟩
    · rw [step, hsame]
    · rw [step, hnew]
      simp
  | timeLockResolved ref envelope =>
    rw [step, timeLockResolved]
    split <;> simp
  | submitApproval =>
    simp only [step, submitApproval]
    split
    · exact le_rfl
    split
    · exact le_rfl
    split
    · split <;> simp
    · simp
  | triggerEmergency =>
    obtain ⟨emergencyState, hwrites⟩ := triggerEmergency_writes state _ _ _ _
    rw [step, hwrites]
  | unfreezeEmergency =>
    obtain ⟨emergencyState, hwrites⟩ := unfreezeEmergency_writes state _ _
    rw [step, hwrites]

/-- The event turns the object at `ref` into the approved `approval`. -/
structure Approves (oracles : GovernanceOracles) (state : GovernanceState)
    (event : GovernanceEvent) (ref : ℕ) (approval : PendingApproval) : Prop where
  after : (step oracles state event).approvals[ref]? = some approval
  approved : approval.status = .APPROVED
  before : ∀ old, state.approvals[ref]? = some old → old.status ≠ .APPROVED

theorem completesAt_approves {state : GovernanceState} {event : GovernanceEvent} {ref : ℕ}
    {old : PendingApproval} (h : CompletesAt oracles state ref old event) :
    ∃ approval, Approves oracles state event ref approval ∧ approval.tier = old.tier ∧
      approval.timeLockEnvelope = old.timeLockEnvelope := by
  obtain ⟨hget, hopen, approval, hafter, happroved, htier, henvelope⟩ := completesAt_step h
  refine ⟨approval, ⟨hafter, happroved, fun old' hold => ?_⟩, htier, henvelope⟩
  rwa [← Option.some.inj (hget.symm.trans hold)]

/-- **Only a completed submission approves.** -/
theorem completesAt_of_approves {state : GovernanceState} {event : GovernanceEvent} {ref : ℕ}
    {approval : PendingApproval} (h : Approves oracles state event ref approval) :
    ∃ old, CompletesAt oracles state ref old event ∧ approval.tier = old.tier ∧
      approval.timeLockEnvelope = old.timeLockEnvelope ∧ approval.expiresAt = old.expiresAt := by
  obtain ⟨hafter, happroved, hbefore⟩ := h
  cases step_approvals hafter with
  | kept hold => exact absurd happroved (hbefore approval hold)
  | created hnew => exact absurd happroved (initiateApproval_ok hnew).2.1
  | unlocked => cases happroved
  | submitted hlookup hcheck => exact absurd happroved (checkSubmission_ok hcheck).1
  | @approved approvalId role ed25519Signature blsSignature clock _ old identity hlookup hcheck
      hthreshold =>
    have hget := (lookupApproval_eq_some hlookup).2
    have hlt : ref < state.approvals.length := (List.getElem?_eq_some_iff.mp hget).1
    refine ⟨old, ⟨hlookup, identity, ?_⟩, rfl, rfl, rfl⟩
    cases haggregated : oracles.aggregateSignatures
        (old.approvals.set identity.ed25519PublicKey blsSignature).values.zipIdx with
    | ok aggregated => exact ⟨aggregated, hcheck, hthreshold, rfl⟩
    | error e =>
      simp only [step, submitApproval, hlookup, hcheck,
        if_pos (remaining_eq_zero.mpr hthreshold), haggregated] at hafter
      rw [List.getElem?_set_self hlt] at hafter
      have hstatus := congrArg PendingApproval.status (Option.some.inj hafter)
      exact absurd hstatus (checkSubmission_ok hcheck).1

/-! ## Approved approvals -/

/-- A promise resolves for an object that is approved by then. -/
def Reopens (state : GovernanceState) : GovernanceEvent → Prop
  | .timeLockResolved ref _ => ref ∈ state.timeLocks ∧
      ∃ approval, state.approvals[ref]? = some approval ∧ approval.status = .APPROVED
  | _ => False

theorem stays_approved {state : GovernanceState} {event : GovernanceEvent} {ref : ℕ}
    {old : PendingApproval} (hold : state.approvals[ref]? = some old)
    (hstatus : old.status = .APPROVED) (h : ¬ Reopens state event) :
    ∃ approval, (step oracles state event).approvals[ref]? = some approval ∧
      approval.status = .APPROVED := by
  have hlt : ref < (step oracles state event).approvals.length :=
    (List.getElem?_eq_some_iff.mp hold).1.trans_le (length_le_step state event)
  obtain ⟨approval, hget⟩ :
      ∃ approval, (step oracles state event).approvals[ref]? = some approval :=
    ⟨_, List.getElem?_eq_getElem hlt⟩
  refine ⟨approval, hget, ?_⟩
  cases step_approvals hget with
  | kept hkept =>
    rw [Option.some.inj (hkept.symm.trans hold)]
    exact hstatus
  | created =>
    rw [List.getElem?_eq_none le_rfl] at hold
    cases hold
  | unlocked hunlocked hlock =>
    rw [Option.some.inj (hold.symm.trans hunlocked)] at hstatus
    exact absurd ⟨hlock, _, hunlocked, hstatus⟩ h
  | submitted hlookup hcheck =>
    have hget := (lookupApproval_eq_some hlookup).2
    rw [Option.some.inj (hold.symm.trans hget)] at hstatus
    exact absurd hstatus (checkSubmission_ok hcheck).1
  | approved => rfl

theorem submitApproval_approved {state : GovernanceState} {approvalId : JSString} {ref : ℕ}
    {approval : PendingApproval} (hlookup : lookupApproval state approvalId = some (ref, approval))
    (hstatus : approval.status = .APPROVED) (role : GovernanceRole)
    (ed25519Signature blsSignature : JSString) (clock : ℕ → ℤ) :
    submitApproval oracles state approvalId role ed25519Signature blsSignature clock =
      (state, .error (plainError (js "Already approved"))) := by
  simp [submitApproval, hlookup, checkSubmission, hstatus]

/-- Every approval that is approved at some point of the run is so at every later one,
and there every submission for it throws. -/
def ApprovedFinal (oracles : GovernanceOracles) (start : GovernanceState)
    (events : List GovernanceEvent) : Prop :=
  ∀ past later rest, events = past ++ later ++ rest → ∀ (ref : ℕ) (old : PendingApproval),
    (run (step oracles) start past).approvals[ref]? = some old → old.status = .APPROVED →
    ∃ approval, (run (step oracles) start (past ++ later)).approvals[ref]? = some approval ∧
      approval.status = .APPROVED ∧
      ∀ (approvalId : JSString) (found : PendingApproval),
        lookupApproval (run (step oracles) start (past ++ later)) approvalId = some (ref, found) →
        ∀ (role : GovernanceRole) (ed25519Signature blsSignature : JSString) (clock : ℕ → ℤ),
          submitApproval oracles (run (step oracles) start (past ++ later)) approvalId role
              ed25519Signature blsSignature clock =
            (run (step oracles) start (past ++ later),
              .error (plainError (js "Already approved")))

/-- **Approved is final** in a run exactly when no promise resolves for an object that is
approved by then. -/
theorem approved_final_iff {start : GovernanceState} {events : List GovernanceEvent} :
    ApprovedFinal oracles start events ↔
      Always (step oracles) start events fun state event => ¬ Reopens state event := by
  constructor
  · intro h past event rest hcut hreopens
    cases event with
    | timeLockResolved ref envelope =>
      obtain ⟨hlock, old, hold, hstatus⟩ := hreopens
      have hcut' : events = past ++ [.timeLockResolved ref envelope] ++ rest := by simpa using hcut
      obtain ⟨approval, hget, happroved, -⟩ := h past _ rest hcut' ref old hold hstatus
      rw [run_concat, step, timeLockResolved, if_pos hlock] at hget
      simp only [List.getElem?_modify, hold, if_pos] at hget
      rw [← Option.some.inj hget] at happroved
      cases happroved
    | _ => cases hreopens
  · intro h past later rest hcut ref old hold hstatus
    have hkept : ∀ middle tail, later = middle ++ tail →
        ∃ approval, (run (step oracles) start (past ++ middle)).approvals[ref]? = some approval ∧
          approval.status = .APPROVED := by
      intro middle
      induction middle using List.reverseRecOn with
      | nil => exact fun _ _ => ⟨old, by rwa [List.append_nil], hstatus⟩
      | append_singleton middle event ih =>
        intro tail hlater
        obtain ⟨approval, hget, happroved⟩ := ih (event :: tail) (by simpa using hlater)
        have hevent := h (past ++ middle) event (tail ++ rest) (by simp [hcut, hlater])
        rw [← List.append_assoc, run_concat]
        exact stays_approved hget happroved hevent
    obtain ⟨approval, hget, happroved⟩ := hkept later [] (by simp)
    refine ⟨approval, hget, happroved, fun approvalId found hlookup => ?_⟩
    have hfound : found.status = .APPROVED := by
      rw [← Option.some.inj (hget.symm.trans (lookupApproval_eq_some hlookup).2)]
      exact happroved
    exact submitApproval_approved hlookup hfound

/-! ## Time locks -/

/-- The promises still waited for belong to different objects, and an approval with a
time lock has no envelope exactly while its promise is waited for. -/
structure LockInvariant (state : GovernanceState) : Prop where
  nodup : state.timeLocks.Nodup
  bounded : ∀ ref ∈ state.timeLocks, ref < state.approvals.length
  waiting : ∀ (ref : ℕ) (approval : PendingApproval), state.approvals[ref]? = some approval →
    0 < approval.tier.timeLockSeconds → (approval.timeLockEnvelope = none ↔ ref ∈ state.timeLocks)

theorem lockInvariant_new (policies : InsertionMap JSString GovernancePolicy) :
    LockInvariant (newEngine policies) := by
  refine ⟨List.nodup_nil, ?_, ?_⟩ <;> simp [newEngine]

theorem lockInvariant_of_timeLocks {state : GovernanceState} {event : GovernanceEvent}
    (h : LockInvariant state) (hlocks : (step oracles state event).timeLocks = state.timeLocks)
    (happrovals : ∀ (ref : ℕ) (approval : PendingApproval),
      (step oracles state event).approvals[ref]? = some approval →
      ∃ old, state.approvals[ref]? = some old ∧ approval.tier = old.tier ∧
        approval.timeLockEnvelope = old.timeLockEnvelope) :
    LockInvariant (step oracles state event) := by
  refine ⟨hlocks ▸ h.nodup, ?_, ?_⟩
  · intro ref href
    exact (h.bounded ref (hlocks ▸ href)).trans_le (length_le_step state event)
  · intro ref approval hget hlocked
    obtain ⟨old, hold, htier, henvelope⟩ := happrovals ref approval hget
    rw [henvelope, hlocks]
    exact h.waiting ref old hold (htier ▸ hlocked)

theorem lockInvariant_initiateApproval {state : GovernanceState} (h : LockInvariant state)
    (transactionHash : JSString) (amountUSD : ℚ) (policyId : JSString) (clock : ℕ → ℤ) :
    LockInvariant
      (initiateApproval oracles state transactionHash amountUSD policyId clock).1 := by
  rcases initiateApproval_cases oracles state transactionHash amountUSD policyId
    clock with hsame | ⟨new, pendingApprovals, henvelope, hnew⟩
  · rwa [hsame]
  have hfresh : state.approvals.length ∉ state.timeLocks := fun hmem =>
    lt_irrefl _ (h.bounded _ hmem)
  rw [hnew]
  refine ⟨?_, ?_, ?_⟩
  · dsimp only
    split
    · rw [List.nodup_append]
      refine ⟨h.nodup, List.nodup_singleton _, ?_⟩
      rintro ref href _ hlast rfl
      rw [List.mem_singleton.mp hlast] at href
      exact hfresh href
    · exact h.nodup
  · intro ref href
    simp only [List.length_append, List.length_singleton]
    dsimp only at href
    split at href
    · rcases List.mem_append.mp href with hmem | hlast
      · exact (h.bounded ref hmem).trans (Nat.lt_succ_self _)
      · rw [List.mem_singleton.mp hlast]
        exact Nat.lt_succ_self _
    · exact (h.bounded ref href).trans (Nat.lt_succ_self _)
  · intro ref approval hget hlocked
    dsimp only at hget ⊢
    rcases getElem?_concat_eq_some hget with hold | ⟨rfl, rfl⟩
    · have hlt := (List.getElem?_eq_some_iff.mp hold).1
      rw [h.waiting ref approval hold hlocked]
      split
      · simp [Nat.ne_of_lt hlt]
      · rfl
    · simp [henvelope, hlocked]

theorem lockInvariant_timeLockResolved {state : GovernanceState} (h : LockInvariant state)
    (ref : ℕ) (envelope : TimeLockEnvelope) :
    LockInvariant (timeLockResolved state ref envelope) := by
  rw [timeLockResolved]
  split
  next hlock =>
    refine ⟨h.nodup.erase ref, ?_, ?_⟩
    · intro other hother
      simp only [List.length_modify]
      exact h.bounded other (List.mem_of_mem_erase hother)
    · intro other approval hget hlocked
      dsimp only at hget ⊢
      rw [h.nodup.mem_erase_iff]
      simp only [List.getElem?_modify] at hget
      obtain ⟨old, hold, hval⟩ := Option.map_eq_some_iff.mp hget
      split at hval
      next heq =>
        rw [← hval, ← heq]
        simp
      next hne =>
        subst hval
        simp [h.waiting other old hold hlocked, Ne.symm hne]
  · exact h

theorem lockInvariant_step {state : GovernanceState} {event : GovernanceEvent}
    (h : LockInvariant state) : LockInvariant (step oracles state event) := by
  cases event with
  | registerRoleIdentity =>
    exact lockInvariant_of_timeLocks h rfl fun ref approval hget => ⟨approval, hget, rfl, rfl⟩
  | initiateApproval => exact lockInvariant_initiateApproval h _ _ _ _
  | timeLockResolved => exact lockInvariant_timeLockResolved h _ _
  | submitApproval =>
    refine lockInvariant_of_timeLocks h ?_ fun ref approval hget => ?_
    · obtain ⟨approvals, hwrites⟩ := @submitApproval_writes oracles state _ _ _ _ _
      rw [step, hwrites]
    · cases step_approvals hget with
      | kept hold => exact ⟨approval, hold, rfl, rfl⟩
      | submitted hlookup => exact ⟨_, (lookupApproval_eq_some hlookup).2, rfl, rfl⟩
      | approved hlookup => exact ⟨_, (lookupApproval_eq_some hlookup).2, rfl, rfl⟩
  | triggerEmergency =>
    obtain ⟨emergencyState, hwrites⟩ := @triggerEmergency_writes oracles state _ _ _ _
    rw [step, hwrites]
    exact ⟨h.nodup, h.bounded, h.waiting⟩
  | unfreezeEmergency =>
    obtain ⟨emergencyState, hwrites⟩ := @unfreezeEmergency_writes oracles state _ _
    rw [step, hwrites]
    exact ⟨h.nodup, h.bounded, h.waiting⟩

/-- An approval with a time lock becomes approved with an accepted envelope only. -/
def KeepsTimeLock (oracles : GovernanceOracles) (state : GovernanceState)
    (event : GovernanceEvent) : Prop :=
  ∀ (ref : ℕ) (approval : PendingApproval), Approves oracles state event ref approval →
    0 < approval.tier.timeLockSeconds →
    ∃ envelope, approval.timeLockEnvelope = some envelope ∧
      verifyTimeLock oracles.sha256 envelope = true

/-- A submission that completes an approval with a time lock comes after the promise has
resolved, with an accepted envelope. -/
def AfterTimeLock (oracles : GovernanceOracles) (state : GovernanceState)
    (event : GovernanceEvent) : Prop :=
  ∀ (ref : ℕ) (approval : PendingApproval), CompletesAt oracles state ref approval event →
    0 < approval.tier.timeLockSeconds →
    ref ∉ state.timeLocks ∧ ∀ envelope, approval.timeLockEnvelope = some envelope →
      verifyTimeLock oracles.sha256 envelope = true

theorem completesAt_get {state : GovernanceState} {event : GovernanceEvent} {ref : ℕ}
    {approval : PendingApproval} (h : CompletesAt oracles state ref approval event) :
    state.approvals[ref]? = some approval := by
  cases event with
  | submitApproval => exact (lookupApproval_eq_some h.1).2
  | _ => cases h

theorem keepsTimeLock_iff {state : GovernanceState} {event : GovernanceEvent}
    (h : LockInvariant state) :
    KeepsTimeLock oracles state event ↔ AfterTimeLock oracles state event := by
  constructor
  · intro hkeeps ref old hcompletes hlocked
    obtain ⟨approval, happroves, htier, henvelope⟩ := completesAt_approves hcompletes
    obtain ⟨envelope, hsome, hverify⟩ := hkeeps ref approval happroves (htier ▸ hlocked)
    rw [henvelope] at hsome
    rw [← h.waiting ref old (completesAt_get hcompletes) hlocked, hsome]
    refine ⟨by simp, ?_⟩
    rintro other ⟨⟩
    exact hverify
  · intro hafter ref approval happroves hlocked
    obtain ⟨old, hcompletes, htier, henvelope, -⟩ := completesAt_of_approves happroves
    obtain ⟨hresolved, hverify⟩ := hafter ref old hcompletes (htier ▸ hlocked)
    rw [← h.waiting ref old (completesAt_get hcompletes) (htier ▸ hlocked)] at hresolved
    obtain ⟨envelope, hsome⟩ := Option.ne_none_iff_exists'.mp hresolved
    exact ⟨envelope, henvelope.trans hsome, hverify envelope hsome⟩

/-- **The time lock** is kept in a run exactly when every submission that completes an
approval with one comes after the promise and finds an accepted envelope. -/
theorem approved_after_timeLock_iff {policies : InsertionMap JSString GovernancePolicy}
    {events : List GovernanceEvent} :
    Always (step oracles) (newEngine policies) events (KeepsTimeLock oracles) ↔
      Always (step oracles) (newEngine policies) events (AfterTimeLock oracles) :=
  always_congr LockInvariant (lockInvariant_new policies) (fun _ _ => lockInvariant_step)
    fun _ _ => keepsTimeLock_iff

/-! ## Expiry -/

/-- A submission later than the expiry throws and changes nothing, and no approval becomes
approved then. -/
structure RespectsExpiry (oracles : GovernanceOracles) (state : GovernanceState)
    (event : GovernanceEvent) : Prop where
  submission : ∀ {approvalId role ed25519Signature blsSignature clock},
    event = .submitApproval approvalId role ed25519Signature blsSignature clock →
    ∀ {ref approval}, lookupApproval state approvalId = some (ref, approval) →
      approval.expiresAt < clock 0 →
      ∃ e, submitApproval oracles state approvalId role ed25519Signature blsSignature clock =
        (state, .error e)
  approval : ∀ {ref approval}, Approves oracles state event ref approval →
    ∀ clock, event.clock? = some clock → clock 0 ≤ approval.expiresAt

/-- A submission later than the expiry of an approval that is open, with two valid
signatures. -/
def LateSubmission (oracles : GovernanceOracles) (state : GovernanceState) :
    GovernanceEvent → Prop
  | .submitApproval approvalId role ed25519Signature blsSignature clock =>
    ∃ ref approval identity, lookupApproval state approvalId = some (ref, approval) ∧
      approval.expiresAt < clock 0 ∧ approval.status ≠ .APPROVED ∧
      (verifyRoleSignature oracles state role (approvalMessage approval) ed25519Signature
        (clock 1)).identity = some identity ∧
      oracles.verifyBLSSignature identity.blsPublicKey (approvalMessage approval) blsSignature =
        true
  | _ => False

theorem respectsExpiry_of_not_late {state : GovernanceState} {event : GovernanceEvent}
    (h : ¬ LateSubmission oracles state event) : RespectsExpiry oracles state event := by
  refine ⟨?_, ?_⟩
  · rintro approvalId role ed25519Signature blsSignature clock rfl ref approval hlookup hexpired
    cases hcheck : checkSubmission oracles state approval role ed25519Signature blsSignature
        clock with
    | error e => exact ⟨e, by simp [submitApproval, hlookup, hcheck]⟩
    | ok identity =>
      obtain ⟨hopen, hidentity, hbls⟩ := checkSubmission_ok hcheck
      exact absurd ⟨ref, approval, identity, hlookup, hexpired, hopen, hidentity, hbls⟩ h
  · intro ref approval happroves clock hclock
    by_contra hlate
    obtain ⟨old, hcompletes, -, -, hexpires⟩ := completesAt_of_approves happroves
    cases event with
    | submitApproval approvalId role ed25519Signature blsSignature clock' =>
      obtain ⟨hlookup, identity, -, hcheck, -⟩ := hcompletes
      obtain ⟨hopen, hidentity, hbls⟩ := checkSubmission_ok hcheck
      obtain rfl := Option.some.inj hclock
      rw [hexpires, not_le] at hlate
      exact h ⟨ref, old, identity, hlookup, hlate, hopen, hidentity, hbls⟩
    | _ => cases hcompletes

/-- No event makes an approval `EXPIRED`, which is what the check of the expiry asks for. -/
theorem never_expired {policies : InsertionMap JSString GovernancePolicy}
    (events : List GovernanceEvent) :
    ∀ (ref : ℕ) (approval : PendingApproval),
      (run (step oracles) (newEngine policies) events).approvals[ref]? = some approval →
      approval.status ≠ .EXPIRED := by
  refine run_invariant (fun state : GovernanceState => ∀ (ref : ℕ) (approval : PendingApproval),
    state.approvals[ref]? = some approval → approval.status ≠ .EXPIRED) ?_ ?_ events
  · simp [newEngine]
  · intro state event h ref approval hget
    cases step_approvals hget with
    | kept hold => exact h ref approval hold
    | created hnew => exact (initiateApproval_ok hnew).2.2
    | unlocked => simp
    | submitted hlookup =>
      have hold := h ref _ (lookupApproval_eq_some hlookup).2
      exact hold
    | approved => simp

/-- **The expiry** is respected by every event of a run in which no submission with valid
signatures comes late. -/
theorem expiry_respected {policies : InsertionMap JSString GovernancePolicy}
    {events : List GovernanceEvent}
    (h : Always (step oracles) (newEngine policies) events fun state event =>
      ¬ LateSubmission oracles state event) :
    Always (step oracles) (newEngine policies) events (RespectsExpiry oracles) :=
  fun past event rest hcut => respectsExpiry_of_not_late (h past event rest hcut)

/-! ## Three runs -/

/-- The policies with a time lock of an hour. -/
def lockedPolicies : InsertionMap JSString GovernancePolicy :=
  InsertionMap.empty.set (js "policy") {
    policyId := js "policy"
    version := 1
    tiers := [{ testTier with timeLockSeconds := 3600 }]
    circuitBreakerRules := []
    signedBy := []
    merkleRoot := []
    createdAt := 0 }

/-- The promise of the time lock resolves after the two submissions. -/
def lateResolution : List GovernanceEvent :=
  twoSubmissions .ADMIN .TREASURY ++ [.timeLockResolved 0 unworkedEnvelope]

/-- The promise makes the approved approval `PENDING` again. -/
theorem late_resolution_reopens :
    ¬ ApprovedFinal testOracles (newEngine lockedPolicies) lateResolution := by
  intro h
  obtain ⟨approval, hget, hstatus, -⟩ := h (twoSubmissions .ADMIN .TREASURY)
    [.timeLockResolved 0 unworkedEnvelope] [] rfl 0 _ (by with_unfolding_all rfl) rfl
  have hpending : (run (step testOracles) (newEngine lockedPolicies)
      lateResolution).approvals[0]?.map PendingApproval.status = some .PENDING := by
    with_unfolding_all rfl
  rw [lateResolution, hget] at hpending
  exact absurd (hstatus.symm.trans (Option.some.inj hpending)) (by decide)

/-- Two submissions approve while the promise is still waited for. -/
theorem approved_during_timeLock :
    ¬ Always (step testOracles) (newEngine lockedPolicies) (twoSubmissions .ADMIN .TREASURY)
      (KeepsTimeLock testOracles) := by
  intro h
  have hlocked : (run (step testOracles) (newEngine lockedPolicies)
      ((twoSubmissions .ADMIN .TREASURY).take 4)).approvals[0]?.map PendingApproval.status =
        some .TIME_LOCKED := by
    with_unfolding_all rfl
  have hbefore : ∀ old, (run (step testOracles) (newEngine lockedPolicies)
      ((twoSubmissions .ADMIN .TREASURY).take 4)).approvals[0]? = some old →
      old.status ≠ .APPROVED := by
    intro old hold happroved
    rw [hold] at hlocked
    exact absurd (happroved.symm.trans (Option.some.inj hlocked)) (by decide)
  obtain ⟨envelope, hsome, -⟩ := h ((twoSubmissions .ADMIN .TREASURY).take 4)
    ((twoSubmissions .ADMIN .TREASURY).getLast (by decide)) [] rfl 0 _
    ⟨by with_unfolding_all rfl, rfl, hbefore⟩ (by decide)
  cases hsome

theorem expiry_respected_two :
    Always (step testOracles) (newEngine testPolicies) (twoSubmissions .ADMIN .TREASURY)
      (RespectsExpiry testOracles) := by
  refine expiry_respected ?_
  refine always_cons.mpr ⟨id, always_cons.mpr ⟨id, always_cons.mpr ⟨id,
    always_cons.mpr ⟨?_, always_cons.mpr ⟨?_, always_nil⟩⟩⟩⟩⟩
  all_goals
    rintro ⟨ref, approval, identity, hlookup, hlate, -⟩
    have hfound := congrArg (Option.map fun e => e.2.expiresAt) hlookup
    have hexpires : (86400000 : ℤ) = approval.expiresAt := by
      with_unfolding_all exact Option.some.inj hfound
    rw [← hexpires] at hlate
    exact absurd hlate (by decide)

/-- The submissions come a millisecond after the day is over. -/
def lateSubmissions : List GovernanceEvent :=
  let approvalId := approvalIdOf testOracles (js "tx") 1000 0
  (twoSubmissions .ADMIN .TREASURY).take 3 ++
    [.submitApproval approvalId .ADMIN (js "0xaa") (js "0x01") (fun _ => 86400001),
      .submitApproval approvalId .TREASURY (js "0xbb") (js "0x02") (fun _ => 86400001)]

/-- The expired approval is approved. -/
theorem expired_approval_approved :
    ¬ Always (step testOracles) (newEngine testPolicies) lateSubmissions
      (RespectsExpiry testOracles) := by
  intro h
  have hlast := h (lateSubmissions.take 4) (lateSubmissions.getLast (by decide)) [] rfl
  obtain ⟨e, he⟩ := hlast.submission rfl (by with_unfolding_all rfl) (by decide)
  have hok : (submitApproval testOracles (run (step testOracles) (newEngine testPolicies)
      (lateSubmissions.take 4)) (approvalIdOf testOracles (js "tx") 1000 0) .TREASURY (js "0xbb")
      (js "0x02") fun _ => 86400001).2.isOk = true := by
    with_unfolding_all rfl
  rw [he] at hok
  cases hok

end BioFire.Governance
