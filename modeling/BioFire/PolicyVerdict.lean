import BioFire.Velocity

/-!
# Verdict and risk score (`src/lib/policy/policy_engine.ts`)

What `evaluatePolicy` returns, as a function of the checks that the transaction fails.

* `evaluatePolicy_summary`: the risk score and whether there are reasons;
* `policy_verdict`: the two readings of the verdict agree, and say what the rules say;
* `risk_scale_iff`: where the score leaves its scale, and where one more failed check lowers it.
-/

namespace BioFire.Policy

/-- The checks of `evaluatePolicy`, in order. -/
inductive PolicyCheck where
  | enabled | address | blacklist | whitelist | amount | daily | velocity | contract
  deriving DecidableEq

/-- The call fails the check in this state. -/
def fails (platform : Platform) (state : PolicyState) (call : PolicyCall) : PolicyCheck → Bool
  | .enabled => !state.activePolicy.enabled
  | .address => validateAddress platform (.string call.toAddress) ≠ .ok true
  | .blacklist => isBlacklisted platform state.activePolicy call.toAddress
  | .whitelist => isOffWhitelist platform state.activePolicy call.toAddress
  | .amount => state.activePolicy.maxTransactionAmountUSD < call.amountUSD
  | .daily => exceedsDailyLimit state.activePolicy call.amountUSD
  | .velocity => state.activePolicy.velocityLimitPerHour ≤
      ((recentTxs state call.toAddress call.now).length : ℚ)
  | .contract => isBlockedContract state.activePolicy call.simulation

/-- The evaluation of a call. -/
def evaluate (platform : Platform) (state : PolicyState) (call : PolicyCall) :
    PolicyState × Except JSError PolicyEvaluationResult :=
  evaluatePolicy platform state call.toAddress call.amountUSD call.simulation call.now call.cleanup

/-- The weights of the failed checks that add to the score. -/
def addedRisk (failed : PolicyCheck → Bool) : ℕ :=
  (if failed .address then 50 else 0) + (if failed .whitelist then 40 else 0) +
    (if failed .amount then 30 else 0) + (if failed .daily then 30 else 0) +
    (if failed .velocity then 25 else 0)

/-- The score of a transaction that fails these checks. -/
def riskOf (failed : PolicyCheck → Bool) : ℕ :=
  if failed .enabled then 0
  else if failed .blacklist || failed .contract then 100
  else addedRisk failed

/-- No check has failed. -/
def passes (failed : PolicyCheck → Bool) : Bool :=
  !failed .enabled && !failed .address && !failed .blacklist && !failed .whitelist &&
    !failed .amount && !failed .daily && !failed .velocity && !failed .contract

/-! ## The result -/

/-- The score of a result, and whether nothing was rejected. -/
def PolicyEvaluationResult.summary (result : PolicyEvaluationResult) : ℕ × Bool :=
  (result.riskScore, result.rejectionReasons.isEmpty)

variable {platform : Platform} {policy : PolicyRule} {toAddress : JSString} {amountUSD : ℚ}
  {simulation : Option TransactionSimulationResult} {result : PolicyEvaluationResult}

theorem summary_checkAddress {valid : Bool} :
    (checkAddress valid result).summary =
      (result.summary.1 + if valid then 0 else 50, result.summary.2 && valid) := by
  unfold checkAddress
  split
  next h => simp [h]
  next h => simp [h, PolicyEvaluationResult.summary, PolicyEvaluationResult.reject]

theorem summary_checkWhitelist :
    (checkWhitelist platform policy toAddress result).summary =
      (result.summary.1 + if isOffWhitelist platform policy toAddress then 40 else 0,
        result.summary.2 && !isOffWhitelist platform policy toAddress) := by
  unfold checkWhitelist
  split
  next h => simp [h, PolicyEvaluationResult.summary, PolicyEvaluationResult.reject]
  next h => simp [h]

theorem summary_checkAmount :
    (checkAmount platform policy amountUSD result).summary =
      (result.summary.1 + if decide (policy.maxTransactionAmountUSD < amountUSD) then 30 else 0,
        result.summary.2 && !decide (policy.maxTransactionAmountUSD < amountUSD)) := by
  unfold checkAmount
  split
  next h => simp [h, PolicyEvaluationResult.summary]
  next h => simp [h]

theorem summary_checkDailyLimit :
    (checkDailyLimit platform policy amountUSD result).summary =
      (result.summary.1 + if exceedsDailyLimit policy amountUSD then 30 else 0,
        result.summary.2 && !exceedsDailyLimit policy amountUSD) := by
  unfold checkDailyLimit
  split
  next h => simp [h, PolicyEvaluationResult.summary, PolicyEvaluationResult.reject]
  next h => simp [h]

theorem summary_checkVelocity {recent : List ℤ} :
    (checkVelocity policy recent result).summary =
      (result.summary.1 +
          if decide (policy.velocityLimitPerHour ≤ (recent.length : ℚ)) then 25 else 0,
        result.summary.2 && !decide (policy.velocityLimitPerHour ≤ (recent.length : ℚ))) := by
  unfold checkVelocity
  split
  next h => simp [h, PolicyEvaluationResult.summary, PolicyEvaluationResult.reject]
  next h => simp [h]

theorem summary_checkContract :
    (checkContract policy simulation result).summary =
      (if isBlockedContract policy simulation then 100 else result.summary.1,
        result.summary.2 && !isBlockedContract policy simulation) := by
  unfold checkContract
  split
  next h => simp [h, PolicyEvaluationResult.summary, PolicyEvaluationResult.reject]
  next h => simp [h]

theorem summary_requireApproval {bound : ℚ} {role : ApprovalRole} :
    (requireApproval bound role amountUSD result).summary = result.summary := by
  unfold requireApproval
  split <;> rfl

theorem summary_finalize {now : ℤ} : (finalize policy now result).summary = result.summary := by
  have hallowed : ∀ r : PolicyEvaluationResult, (if r.rejectionReasons ≠ [] then
      { r with allowed := false } else r).summary = r.summary := by
    intro r
    split <;> rfl
  simp only [finalize]
  rw [hallowed]
  split <;> rfl

theorem forall_check_iff {p : PolicyCheck → Prop} : (∀ check, p check) ↔
    p .enabled ∧ p .address ∧ p .blacklist ∧ p .whitelist ∧ p .amount ∧ p .daily ∧ p .velocity ∧
      p .contract := by
  constructor
  · intro h
    exact ⟨h _, h _, h _, h _, h _, h _, h _, h _⟩
  · rintro ⟨h₁, h₂, h₃, h₄, h₅, h₆, h₇, h₈⟩ check
    cases check <;> assumption

theorem passes_iff {failed : PolicyCheck → Bool} :
    passes failed = true ↔ ∀ check, failed check = false := by
  rw [forall_check_iff]
  simp only [passes, Bool.and_eq_true, Bool.not_eq_true', and_assoc]

variable {state : PolicyState} {call : PolicyCall}

theorem policyAllows_iff_fails : PolicyAllows platform state call.toAddress call.amountUSD
    call.simulation call.now ↔ ∀ check, fails platform state call check = false := by
  rw [forall_check_iff]
  simp only [fails, Bool.not_eq_false', decide_eq_false_iff_not, not_not, not_lt, not_le]
  constructor
  · rintro ⟨h₁, h₂, h₃, h₄, h₅, h₆, h₇, h₈⟩
    exact ⟨h₁, h₂, h₃, h₄, h₅, h₆, h₇, h₈⟩
  · rintro ⟨h₁, h₂, h₃, h₄, h₅, h₆, h₇, h₈⟩
    exact ⟨h₁, h₂, h₃, h₄, h₅, h₆, h₇, h₈⟩

/-- **The result.** The failed checks decide the score, and there is a reason for each. -/
theorem evaluatePolicy_summary (h : (evaluate platform state call).2 = .ok result) :
    result.summary = (riskOf (fails platform state call), passes (fails platform state call)) := by
  simp only [evaluate, evaluatePolicy] at h
  split at h
  next hdisabled =>
    obtain rfl := Except.ok.inj h
    simp [PolicyEvaluationResult.summary, PolicyEvaluationResult.reject, initialResult, riskOf,
      passes, fails, hdisabled]
  next henabled =>
    split at h
    · cases h
    next valid hvalid =>
      have haddress : fails platform state call .address = !valid := by
        rw [fails, hvalid]
        cases valid <;> rfl
      split at h
      next hblack =>
        obtain rfl := Except.ok.inj h
        simp [PolicyEvaluationResult.summary, PolicyEvaluationResult.reject, riskOf, passes, fails,
          henabled, hblack]
      next hblack =>
        obtain rfl := Except.ok.inj h
        simp only [evaluateChecks, summary_finalize, summary_requireApproval, summary_checkContract,
          summary_checkVelocity, summary_checkDailyLimit, summary_checkAmount,
          summary_checkWhitelist, summary_checkAddress]
        simp only [riskOf, addedRisk, passes, haddress]
        simp only [fails, henabled, hblack, initialResult, PolicyEvaluationResult.summary]
        cases valid with
        | false =>
          simp only [Bool.not_false, Bool.not_true, Bool.false_or, Bool.false_and,
            Bool.and_false, Bool.false_eq_true, if_true, if_false, Nat.zero_add]
          rfl
        | true =>
          simp only [Bool.not_false, Bool.not_true, Bool.false_or, Bool.true_and, Bool.and_true,
            Bool.false_eq_true, if_true, if_false, List.isEmpty_nil, Nat.zero_add]
          rfl

theorem evaluate_allowed_iff (h : (evaluate platform state call).2 = .ok result) :
    result.allowed = true ↔ ∀ check, fails platform state call check = false :=
  (evaluatePolicy_allowed_iff (Prod.ext rfl h)).trans policyAllows_iff_fails

theorem evaluate_reasons_iff (h : (evaluate platform state call).2 = .ok result) :
    result.rejectionReasons = [] ↔ ∀ check, fails platform state call check = false := by
  rw [← passes_iff, ← (Prod.mk.inj (evaluatePolicy_summary h)).2, List.isEmpty_iff]

theorem evaluate_riskScore (h : (evaluate platform state call).2 = .ok result) :
    result.riskScore = riskOf (fails platform state call) :=
  (Prod.mk.inj (evaluatePolicy_summary h)).1

/-! ## The verdict -/

/-- What the policy asks of a transaction, with an exact sum. -/
structure MeetsPolicy (platform : Platform) (state : PolicyState) (call : PolicyCall) : Prop where
  enabled : state.activePolicy.enabled = true
  accepted : validateAddress platform (.string call.toAddress) = .ok true
  notBlacklisted : ∀ addr ∈ state.activePolicy.blacklistedAddresses,
    platform.toLowerCase addr ≠ platform.toLowerCase call.toAddress
  whitelisted : state.activePolicy.whitelistedAddressesOnly = true →
    ∃ addr ∈ state.activePolicy.whitelistedAddresses,
      platform.toLowerCase addr = platform.toLowerCase call.toAddress
  withinMaximum : call.amountUSD ≤ state.activePolicy.maxTransactionAmountUSD
  withinDay : state.activePolicy.currentDailySpendingUSD + call.amountUSD ≤
    state.activePolicy.maxDailySpendingUSD
  withinHour : (((trackedTimes state.velocityTracker call.toAddress).countP
    fun t => call.now - hour < t : ℕ) : ℚ) < state.activePolicy.velocityLimitPerHour
  notMalicious : ¬((∃ simulation, call.simulation = some simulation ∧
    simulation.isMalicious = true) ∧ state.activePolicy.blockMaliciousContracts = true)

theorem containsAddress_iff {list : List JSString} {lower : JSString} :
    containsAddress platform list lower = true ↔
      ∃ addr ∈ list, platform.toLowerCase addr = lower := by
  rw [containsAddress, List.any_eq_true]
  simp only [decide_eq_true_eq]

theorem isBlockedContract_iff : isBlockedContract policy simulation = true ↔
    (∃ s, simulation = some s ∧ s.isMalicious = true) ∧ policy.blockMaliciousContracts = true := by
  rw [isBlockedContract, Bool.and_eq_true]
  cases simulation with
  | none => simp
  | some s => simp

/-- With an exact sum the code's conditions are those of the policy. -/
theorem meetsPolicy_iff (hexact : binary64.round
      (state.activePolicy.currentDailySpendingUSD + call.amountUSD) =
        state.activePolicy.currentDailySpendingUSD + call.amountUSD) :
    MeetsPolicy platform state call ↔ PolicyAllows platform state call.toAddress call.amountUSD
      call.simulation call.now := by
  have hblack : isBlacklisted platform state.activePolicy call.toAddress = false ↔
      ∀ addr ∈ state.activePolicy.blacklistedAddresses,
        platform.toLowerCase addr ≠ platform.toLowerCase call.toAddress := by
    rw [← Bool.not_eq_true, isBlacklisted, containsAddress_iff]
    simp only [not_exists, not_and, ne_eq]
  have hwhite : isOffWhitelist platform state.activePolicy call.toAddress = false ↔
      (state.activePolicy.whitelistedAddressesOnly = true →
        ∃ addr ∈ state.activePolicy.whitelistedAddresses,
          platform.toLowerCase addr = platform.toLowerCase call.toAddress) := by
    rw [isOffWhitelist, ← containsAddress_iff]
    cases state.activePolicy.whitelistedAddressesOnly <;> simp
  have hdaily : exceedsDailyLimit state.activePolicy call.amountUSD = false ↔
      state.activePolicy.currentDailySpendingUSD + call.amountUSD ≤
        state.activePolicy.maxDailySpendingUSD := by
    rw [exceedsDailyLimit, hexact, decide_eq_false_iff_not, not_lt]
  have hhour : (recentTxs state call.toAddress call.now).length =
      (trackedTimes state.velocityTracker call.toAddress).countP fun t => call.now - hour < t :=
    List.countP_eq_length_filter.symm
  have hcontract : isBlockedContract state.activePolicy call.simulation = false ↔ _ :=
    (Bool.not_eq_true _).symm.to_iff.trans (not_congr isBlockedContract_iff)
  constructor
  · rintro ⟨h₁, h₂, h₃, h₄, h₅, h₆, h₇, h₈⟩
    exact ⟨h₁, h₂, hblack.mpr h₃, hwhite.mpr h₄, h₅, hdaily.mpr h₆, by rwa [hhour],
      hcontract.mpr h₈⟩
  · rintro ⟨h₁, h₂, h₃, h₄, h₅, h₆, h₇, h₈⟩
    exact ⟨h₁, h₂, hblack.mp h₃, hwhite.mp h₄, h₅, hdaily.mp h₆, by rwa [hhour] at h₇,
      hcontract.mp h₈⟩

theorem exists_allowed_iff :
    (∃ result, (evaluate platform state call).2 = .ok result ∧ result.allowed = true) ↔
      PolicyAllows platform state call.toAddress call.amountUSD call.simulation call.now := by
  constructor
  · rintro ⟨result, h, hallowed⟩
    exact (evaluatePolicy_allowed_iff (Prod.ext rfl h)).mp hallowed
  · intro hall
    obtain ⟨state', result, h⟩ := evaluatePolicy_returns state call.amountUSD call.simulation
      call.now call.cleanup hall.valid
    exact ⟨result, congrArg Prod.snd h, (evaluatePolicy_allowed_iff h).mpr hall⟩

/-- **The verdict.** A result is an approval exactly when it has no reasons, and exactly the
transactions that meet the policy are approved. -/
theorem policy_verdict (platform : Platform) (state : PolicyState) (call : PolicyCall)
    (hexact : binary64.round (state.activePolicy.currentDailySpendingUSD + call.amountUSD) =
      state.activePolicy.currentDailySpendingUSD + call.amountUSD) :
    (∀ result, (evaluate platform state call).2 = .ok result →
      (result.allowed = true ↔ result.rejectionReasons = [])) ∧
    ((∃ result, (evaluate platform state call).2 = .ok result ∧ result.allowed = true) ↔
      MeetsPolicy platform state call) := by
  refine ⟨fun result h => (evaluate_allowed_iff h).trans (evaluate_reasons_iff h).symm, ?_⟩
  rw [meetsPolicy_iff hexact]
  exact exists_allowed_iff

/-- A transaction of ten dollars under the default policy. -/
theorem policy_verdict_small :
    (∃ result, (evaluate asciiPlatform ⟨defaultPolicy, .empty⟩ (smallCall 0)).2 = .ok result ∧
      result.allowed = true) ↔ MeetsPolicy asciiPlatform ⟨defaultPolicy, .empty⟩ (smallCall 0) :=
  (policy_verdict asciiPlatform ⟨defaultPolicy, .empty⟩ (smallCall 0)
    (by with_unfolding_all decide)).2

/-! ## The risk score -/

/-- The failed checks of which each adds to the score, without the address. -/
def otherWeights (failed : PolicyCheck → Bool) : ℕ :=
  (failed .whitelist).toNat + (failed .amount).toNat + (failed .daily).toNat +
    (failed .velocity).toNat

/-- No check sets the score, and the weights make more than 100: a bad address with two others,
or all four others. -/
structure Overflows (failed : PolicyCheck → Bool) : Prop where
  evaluated : failed .enabled = false
  notBlacklisted : failed .blacklist = false
  notBlocked : failed .contract = false
  heavy : failed .address = true ∧ 2 ≤ otherWeights failed ∨ otherWeights failed = 4

/-- One more failed check makes the score smaller. -/
def Lowers (failed : PolicyCheck → Bool) : PolicyCheck → Prop
  | .enabled => ∃ check, failed check = true
  | .blacklist => Overflows failed
  | .contract => Overflows failed
  | _ => False

/-- The checks that fail are those of `failed` and one more. -/
def FailsOneMore (check : PolicyCheck) (failed failed' : PolicyCheck → Bool) : Prop :=
  failed check = false ∧ failed' check = true ∧
    ∀ other, other ≠ check → failed' other = failed other

variable {failed failed' : PolicyCheck → Bool} {check : PolicyCheck}

theorem addedRisk_le_iff : addedRisk failed ≤ 100 ↔
    ¬(failed .address = true ∧ 2 ≤ otherWeights failed ∨ otherWeights failed = 4) := by
  unfold addedRisk otherWeights
  cases failed .address <;> cases failed .whitelist <;> cases failed .amount <;>
    cases failed .daily <;> cases failed .velocity <;> decide

theorem riskOf_le_iff : riskOf failed ≤ 100 ↔ ¬Overflows failed := by
  unfold riskOf
  split
  next h =>
    refine iff_of_true (by decide) fun hover => ?_
    rw [hover.evaluated] at h
    cases h
  next henabled =>
    split
    next h =>
      refine iff_of_true le_rfl fun hover => ?_
      rw [hover.notBlacklisted, hover.notBlocked] at h
      cases h
    next h =>
      rw [Bool.not_eq_true] at henabled
      rw [Bool.not_eq_true, Bool.or_eq_false_iff] at h
      rw [addedRisk_le_iff]
      exact not_congr ⟨fun hheavy => ⟨henabled, h.1, h.2, hheavy⟩, Overflows.heavy⟩

theorem addedRisk_mono (h : ∀ c, failed c = true → failed' c = true) :
    addedRisk failed ≤ addedRisk failed' := by
  have hweight : ∀ c w, (if failed c then w else 0) ≤ if failed' c then w else 0 := by
    intro c w
    split
    next hc => rw [if_pos (h c hc)]
    next => exact Nat.zero_le _
  unfold addedRisk
  gcongr ?_ + ?_ + ?_ + ?_ + ?_ <;> exact hweight _ _

theorem riskOf_eq_zero_iff (henabled : failed .enabled = false) :
    riskOf failed = 0 ↔ ∀ check, failed check = false := by
  rw [forall_check_iff]
  unfold riskOf addedRisk
  rw [henabled]
  cases failed .address <;> cases failed .blacklist <;> cases failed .whitelist <;>
    cases failed .amount <;> cases failed .daily <;> cases failed .velocity <;>
    cases failed .contract <;> decide

/-- **One more failed check** lowers the score where an early exit or an assignment cuts it. -/
theorem riskOf_le_riskOf_iff (h : FailsOneMore check failed failed') :
    riskOf failed ≤ riskOf failed' ↔ ¬Lowers failed check := by
  obtain ⟨hnot, hfails, hother⟩ := h
  have hset : ∀ c, c ≠ .enabled → c = check → (c = .blacklist ∨ c = .contract) →
      (riskOf failed ≤ riskOf failed' ↔ ¬Overflows failed) := by
    rintro c hne rfl hc
    have henabled := hother .enabled hne.symm
    cases hdisabled : failed .enabled with
    | true =>
      refine iff_of_true ?_ fun hover => ?_
      · simp [riskOf, hdisabled]
      · rw [hover.evaluated] at hdisabled
        cases hdisabled
    | false =>
      rw [hdisabled] at henabled
      have hfull : riskOf failed' = 100 := by
        rcases hc with rfl | rfl <;> simp [riskOf, henabled, hfails]
      rw [hfull, riskOf_le_iff]
  have hadds : PolicyCheck.enabled ≠ check → PolicyCheck.blacklist ≠ check →
      PolicyCheck.contract ≠ check → riskOf failed ≤ riskOf failed' := by
    intro henabled hblack hcontract
    unfold riskOf
    rw [hother .enabled henabled, hother .blacklist hblack, hother .contract hcontract]
    split
    · exact le_rfl
    split
    · exact le_rfl
    refine addedRisk_mono fun c hfailed => ?_
    rwa [hother c (by rintro rfl; rw [hnot] at hfailed; cases hfailed)]
  cases check with
  | enabled =>
    have hzero : riskOf failed' = 0 := by simp [riskOf, hfails]
    rw [hzero, Nat.le_zero, riskOf_eq_zero_iff hnot, Lowers]
    simp
  | blacklist => exact hset .blacklist (by decide) rfl (Or.inl rfl)
  | contract => exact hset .contract (by decide) rfl (Or.inr rfl)
  | address => exact iff_of_true (hadds (by decide) (by decide) (by decide)) id
  | whitelist => exact iff_of_true (hadds (by decide) (by decide) (by decide)) id
  | amount => exact iff_of_true (hadds (by decide) (by decide) (by decide)) id
  | daily => exact iff_of_true (hadds (by decide) (by decide) (by decide)) id
  | velocity => exact iff_of_true (hadds (by decide) (by decide) (by decide)) id

/-- **The risk score** lies on its scale exactly when the weights do not run over. Between two
transactions of which the second fails one more check, it falls exactly where that check switches
the evaluation off or sets a score that had run over. -/
theorem risk_scale_iff (platform : Platform) :
    (∀ state call result, (evaluate platform state call).2 = .ok result →
      (result.riskScore ≤ 100 ↔ ¬Overflows (fails platform state call))) ∧
    ∀ state call result state' call' result' check,
      (evaluate platform state call).2 = .ok result →
      (evaluate platform state' call').2 = .ok result' →
      FailsOneMore check (fails platform state call) (fails platform state' call') →
      (result.riskScore ≤ result'.riskScore ∧ (result'.allowed = true → result.allowed = true) ↔
        ¬Lowers (fails platform state call) check) := by
  constructor
  · intro state call result h
    rw [evaluate_riskScore h, riskOf_le_iff]
  · intro state call result state' call' result' check h h' hmore
    rw [evaluate_riskScore h, evaluate_riskScore h', riskOf_le_riskOf_iff hmore,
      and_iff_left_iff_imp]
    intro _ hallowed
    have hnone := (evaluate_allowed_iff h').mp hallowed check
    rw [hmore.2.1] at hnone
    cases hnone

/-- A transaction that is flagged as malicious, or is not. -/
def flagged (call : PolicyCall) (isMalicious : Bool) : PolicyCall :=
  { call with simulation := some ⟨call.toAddress, isMalicious, .WALLET_DRAINER, .CRITICAL⟩ }

/-- Flagging a small transaction raises its score. -/
theorem flagged_small_scores :
    ∃ result result', (evaluate asciiPlatform ⟨defaultPolicy, .empty⟩
        (flagged (smallCall 0) false)).2 = .ok result ∧
      (evaluate asciiPlatform ⟨defaultPolicy, .empty⟩ (flagged (smallCall 0) true)).2 =
        .ok result' ∧
      result.riskScore ≤ result'.riskScore := by
  obtain ⟨result, h⟩ : ∃ result, (evaluate asciiPlatform ⟨defaultPolicy, .empty⟩
      (flagged (smallCall 0) false)).2 = .ok result := ⟨_, rfl⟩
  obtain ⟨result', h'⟩ : ∃ result, (evaluate asciiPlatform ⟨defaultPolicy, .empty⟩
      (flagged (smallCall 0) true)).2 = .ok result := ⟨_, rfl⟩
  refine ⟨result, result', h, h', (((risk_scale_iff asciiPlatform).2 _ _ _ _ _ _ .contract h h'
    ⟨by decide, by decide, ?_⟩).mpr fun hover => ?_).1⟩
  · intro other hother
    cases other <;> first | rfl | exact absurd rfl hother
  · have haddress : fails asciiPlatform ⟨defaultPolicy, .empty⟩ (flagged (smallCall 0) false)
        .address = false := by
      decide
    have hothers : otherWeights (fails asciiPlatform ⟨defaultPolicy, .empty⟩
        (flagged (smallCall 0) false)) = 0 := by
      with_unfolding_all decide
    rcases hover.heavy with ⟨hbad, -⟩ | hfour
    · rw [haddress] at hbad
      cases hbad
    · omega

/-- Only whitelisted addresses. -/
def whitelistPolicy : PolicyState :=
  ⟨{ defaultPolicy with whitelistedAddressesOnly := true }, .empty⟩

/-- Three millions to something that is no address. -/
def badCall : PolicyCall := ⟨js "nobody", 3000000, none, 0, none⟩

/-- The score runs over, and flagging the transaction lowers it. -/
theorem flagged_bad_scores :
    ∃ result result', (evaluate asciiPlatform whitelistPolicy (flagged badCall false)).2 =
        .ok result ∧
      (evaluate asciiPlatform whitelistPolicy (flagged badCall true)).2 = .ok result' ∧
      FailsOneMore .contract (fails asciiPlatform whitelistPolicy (flagged badCall false))
        (fails asciiPlatform whitelistPolicy (flagged badCall true)) ∧
      result.riskScore = 150 ∧ result'.riskScore = 100 := by
  refine ⟨_, _, rfl, rfl, ⟨by with_unfolding_all decide, by with_unfolding_all decide, ?_⟩,
    by with_unfolding_all decide, by with_unfolding_all decide⟩
  intro other hother
  cases other <;> first | rfl | exact absurd rfl hother

end BioFire.Policy
