import BioFire.InputSanitization
import BioFire.InsertionMap
import Mathlib.Tactic.NormNum

/-!
# The policy engine (`src/lib/policy/policy_engine.ts`)

`evaluatePolicy` with its checks one by one, and the other operations on the policy
state. Amounts and limits are the finite numbers (`NaN` and the infinities are outside
of this model); sums and products are rounded to double precision.

* `evaluatePolicy_allowed_iff`: the verdict, as a condition on the state and the
  transaction (`PolicyAllows`);
* `evaluatePolicy_demands`: the approvals and the time lock that an allowed transaction
  still waits for.
-/

namespace BioFire.Policy

structure PolicyRule where
  enabled : Bool
  maxDailySpendingUSD : ℚ
  currentDailySpendingUSD : ℚ
  whitelistedAddressesOnly : Bool
  whitelistedAddresses : List JSString
  blacklistedAddresses : List JSString
  timeLockMinutes : ℚ
  blockMaliciousContracts : Bool
  velocityLimitPerHour : ℚ
  maxTransactionAmountUSD : ℚ

/-- The state of the module. -/
structure PolicyState where
  activePolicy : PolicyRule
  /-- The times of the evaluations of each destination. -/
  velocityTracker : InsertionMap JSString (List ℤ)

inductive ApprovalRole where
  | ADMIN | TREASURY | COMPLIANCE | RISK_OFFICER
  deriving DecidableEq, Repr

structure PolicyEvaluationResult where
  allowed : Bool
  requiresTimelock : Bool
  timelockExpiry : Option ℚ
  pendingApprovals : List ApprovalRole
  rejectionReasons : List JSString
  riskScore : ℕ
  complianceFlags : List JSString

inductive ThreatCategory where
  | WALLET_DRAINER | UNLIMITED_APPROVAL | UNVERIFIED_CONTRACT | SAFE_TRANSFER
  deriving DecidableEq, Repr

def ThreatCategory.name : ThreatCategory → JSString
  | WALLET_DRAINER => js "WALLET_DRAINER"
  | UNLIMITED_APPROVAL => js "UNLIMITED_APPROVAL"
  | UNVERIFIED_CONTRACT => js "UNVERIFIED_CONTRACT"
  | SAFE_TRANSFER => js "SAFE_TRANSFER"

inductive ThreatSeverity where
  | LOW | MEDIUM | HIGH | CRITICAL
  deriving DecidableEq, Repr

structure TransactionSimulationResult where
  targetAddress : JSString
  isMalicious : Bool
  threatCategory : ThreatCategory
  threatSeverity : ThreatSeverity

/-! ## The policy -/

def resetDailySpending (state : PolicyState) : PolicyState :=
  { state with activePolicy := { state.activePolicy with currentDailySpendingUSD := 0 } }

/-- The default policy. -/
def defaultPolicy : PolicyRule where
  enabled := true
  maxDailySpendingUSD := 2000000
  currentDailySpendingUSD := 0
  whitelistedAddressesOnly := false
  whitelistedAddresses := [js "0x71C7656EC7ab88b098defB751B7401B5f6d8976F",
    js "bc1q9a8b7c6d5e4f3a2b1c0d9e8f7a6b5c4d3e2f"]
  blacklistedAddresses := [js "0x99999999999999999999999999999999DRAIN0000"]
  timeLockMinutes := 30
  blockMaliciousContracts := true
  velocityLimitPerHour := 10
  maxTransactionAmountUSD := 500000

/-! ## Simulation -/

/-- `/a|b|…/i.test(s)` for words in lower case. -/
def matchesWord (words : List JSString) (s : JSString) : Bool :=
  (s.map asciiLower).tails.any fun t => words.any fun w => w.isPrefixOf t

def maliciousPatterns : List (List JSString × ThreatCategory × ThreatSeverity) :=
  [([js "drain", js "phish", js "hack", js "exploit"], .WALLET_DRAINER, .CRITICAL),
    ([js "unlimited", js "approveall"], .UNLIMITED_APPROVAL, .HIGH),
    ([js "proxy", js "unverified"], .UNVERIFIED_CONTRACT, .MEDIUM)]

/-- `list.some(addr => addr.toLowerCase() === lower)` -/
def containsAddress (platform : Platform) (list : List JSString) (lower : JSString) : Bool :=
  list.any fun addr => platform.toLowerCase addr = lower

variable (platform : Platform)

def simulateTransaction (policy : PolicyRule) (targetAddress : JSString) :
    TransactionSimulationResult :=
  let cleanAddr := trim (platform.toLowerCase targetAddress)
  if containsAddress platform policy.blacklistedAddresses cleanAddr then
    ⟨targetAddress, true, .WALLET_DRAINER, .CRITICAL⟩
  else
    match maliciousPatterns.find? fun (words, _) => matchesWord words cleanAddr with
    | some (_, category, severity) => ⟨targetAddress, true, category, severity⟩
    | none => ⟨targetAddress, false, .SAFE_TRANSFER, .LOW⟩

/-! ## Evaluation -/

/-- A rejection with its reason and the risk it adds. -/
def PolicyEvaluationResult.reject (result : PolicyEvaluationResult) (reason : JSString)
    (risk : ℕ) : PolicyEvaluationResult :=
  { result with
    rejectionReasons := result.rejectionReasons ++ [reason]
    riskScore := result.riskScore + risk
    allowed := false }

def initialResult : PolicyEvaluationResult where
  allowed := true
  requiresTimelock := false
  timelockExpiry := none
  pendingApprovals := []
  rejectionReasons := []
  riskScore := 0
  complianceFlags := []

def checkAddress (valid : Bool) (result : PolicyEvaluationResult) : PolicyEvaluationResult :=
  if valid then result else result.reject (js "Invalid destination address format") 50

def isBlacklisted (policy : PolicyRule) (toAddress : JSString) : Bool :=
  containsAddress platform policy.blacklistedAddresses (platform.toLowerCase toAddress)

def isOffWhitelist (policy : PolicyRule) (toAddress : JSString) : Bool :=
  policy.whitelistedAddressesOnly &&
    !containsAddress platform policy.whitelistedAddresses (platform.toLowerCase toAddress)

def checkWhitelist (policy : PolicyRule) (toAddress : JSString) (result : PolicyEvaluationResult) :
    PolicyEvaluationResult :=
  if isOffWhitelist platform policy toAddress then
    result.reject (js "Destination address not in whitelist") 40
  else result

/-- The amount limit. It leaves `allowed` to the final check of the reasons. -/
def checkAmount (policy : PolicyRule) (amountUSD : ℚ) (result : PolicyEvaluationResult) :
    PolicyEvaluationResult :=
  if policy.maxTransactionAmountUSD < amountUSD then
    { result with
      rejectionReasons := result.rejectionReasons ++
        [js "Transaction amount $" ++ platform.toLocaleString amountUSD ++ js " exceeds max $" ++
          platform.toLocaleString policy.maxTransactionAmountUSD]
      riskScore := result.riskScore + 30
      requiresTimelock := true
      pendingApprovals := result.pendingApprovals ++ [.ADMIN] }
  else result

def exceedsDailyLimit (policy : PolicyRule) (amountUSD : ℚ) : Bool :=
  policy.maxDailySpendingUSD < binary64.round (policy.currentDailySpendingUSD + amountUSD)

def checkDailyLimit (policy : PolicyRule) (amountUSD : ℚ) (result : PolicyEvaluationResult) :
    PolicyEvaluationResult :=
  if exceedsDailyLimit policy amountUSD then
    result.reject (js "Daily spending limit exceeded: $" ++
      platform.toLocaleString policy.currentDailySpendingUSD ++ js " / $" ++
      platform.toLocaleString policy.maxDailySpendingUSD) 30
  else result

/-- The timestamps of a destination within the last hour. -/
def recentTxs (state : PolicyState) (toAddress : JSString) (now : ℤ) : List ℤ :=
  ((state.velocityTracker.get toAddress).getD []).filter fun t => now - 3600 * 1000 < t

def checkVelocity (policy : PolicyRule) (recent : List ℤ) (result : PolicyEvaluationResult) :
    PolicyEvaluationResult :=
  if policy.velocityLimitPerHour ≤ (recent.length : ℚ) then
    result.reject (js "Velocity limit exceeded: " ++ decimal recent.length ++
      js " transactions in the last hour") 25
  else result

/-- `simulationResult?.isMalicious && activePolicy.blockMaliciousContracts` -/
def isBlockedContract (policy : PolicyRule) (simulation : Option TransactionSimulationResult) : Bool :=
  (simulation.map TransactionSimulationResult.isMalicious).getD false &&
    policy.blockMaliciousContracts

def checkContract (policy : PolicyRule) (simulation : Option TransactionSimulationResult)
    (result : PolicyEvaluationResult) : PolicyEvaluationResult :=
  if isBlockedContract policy simulation then
    { result.reject (js "Malicious contract detected: " ++
        ((simulation.map fun s => s.threatCategory.name).getD (js "undefined"))) 0 with
      riskScore := 100 }
  else result

/-- A role that must approve amounts above a bound. -/
def requireApproval (bound : ℚ) (role : ApprovalRole) (amountUSD : ℚ)
    (result : PolicyEvaluationResult) : PolicyEvaluationResult :=
  if bound < amountUSD then
    { result with
      pendingApprovals := result.pendingApprovals ++ [role]
      requiresTimelock := true }
  else result

/-- The two steps under `Finalize`. -/
def finalize (policy : PolicyRule) (now : ℤ) (result : PolicyEvaluationResult) :
    PolicyEvaluationResult :=
  let result :=
    if result.pendingApprovals ≠ [] then
      { result with
        requiresTimelock := true
        timelockExpiry := some (binary64.round
          (now + binary64.round (binary64.round (policy.timeLockMinutes * 60) * 1000))) }
    else result
  if result.rejectionReasons ≠ [] then { result with allowed := false } else result

def cleanupVelocityTracker (tracker : InsertionMap JSString (List ℤ)) (now : ℤ) :
    InsertionMap JSString (List ℤ) :=
  tracker.entries.foldl (fun tracker (addr, times) =>
    let filtered := times.filter fun t => now - 3600 * 1000 < t
    if filtered = [] then tracker.delete addr else tracker.set addr filtered) tracker

/-- The checks after the blacklist, in order. -/
def evaluateChecks (policy : PolicyRule) (toAddress : JSString) (amountUSD : ℚ) (recent : List ℤ)
    (simulation : Option TransactionSimulationResult) (now : ℤ) (result : PolicyEvaluationResult) :
    PolicyEvaluationResult :=
  let result := checkWhitelist platform policy toAddress result
  let result := checkAmount platform policy amountUSD result
  let result := checkDailyLimit platform policy amountUSD result
  let result := checkVelocity policy recent result
  let result := checkContract policy simulation result
  let result := requireApproval 100000 .TREASURY amountUSD result
  let result := requireApproval 500000 .COMPLIANCE amountUSD result
  finalize policy now result

/-- `evaluatePolicy`. `cleanup` is the time of the periodic cleaning when this call
makes one. -/
def evaluatePolicy (state : PolicyState) (toAddress : JSString) (amountUSD : ℚ)
    (simulation : Option TransactionSimulationResult) (now : ℤ) (cleanup : Option ℤ) :
    PolicyState × Except JSError PolicyEvaluationResult :=
  let policy := state.activePolicy
  if !policy.enabled then
    (state, .ok (initialResult.reject (js "Policy engine is currently disabled") 0))
  else
    match validateAddress platform (.string toAddress) with
    | .error e => (state, .error e)
    | .ok valid =>
      let result := checkAddress valid initialResult
      if isBlacklisted platform policy toAddress then
        (state, .ok { result.reject (js "Destination address is blacklisted") 0 with
          riskScore := 100 })
      else
        let recent := recentTxs state toAddress now
        let tracker := state.velocityTracker.set toAddress (recent ++ [now])
        let velocityTracker := match cleanup with
          | none => tracker
          | some time => cleanupVelocityTracker tracker time
        ({ state with velocityTracker },
          .ok (evaluateChecks platform policy toAddress amountUSD recent simulation now result))

/-! ## The verdict -/

/-- What an allowed transaction fulfils. -/
structure PolicyAllows (state : PolicyState) (toAddress : JSString) (amountUSD : ℚ)
    (simulation : Option TransactionSimulationResult) (now : ℤ) : Prop where
  enabled : state.activePolicy.enabled = true
  valid : validateAddress platform (.string toAddress) = .ok true
  notBlacklisted : isBlacklisted platform state.activePolicy toAddress = false
  whitelisted : isOffWhitelist platform state.activePolicy toAddress = false
  withinMaximum : amountUSD ≤ state.activePolicy.maxTransactionAmountUSD
  withinDailyLimit : exceedsDailyLimit state.activePolicy amountUSD = false
  withinVelocity : ((recentTxs state toAddress now).length : ℚ) <
    state.activePolicy.velocityLimitPerHour
  notMalicious : isBlockedContract state.activePolicy simulation = false

/-- No check has failed so far. -/
def PolicyEvaluationResult.Clean (result : PolicyEvaluationResult) : Prop :=
  result.allowed = true ∧ result.rejectionReasons = []

variable {platform} {policy : PolicyRule} {toAddress : JSString} {amountUSD : ℚ}
  {simulation : Option TransactionSimulationResult} {result : PolicyEvaluationResult}

theorem clean_initialResult : initialResult.Clean := ⟨rfl, rfl⟩

theorem not_clean_reject (reason : JSString) (risk : ℕ) : ¬ (result.reject reason risk).Clean :=
  fun h => Bool.false_ne_true h.1

theorem clean_checkAddress {valid : Bool} :
    (checkAddress valid result).Clean ↔ result.Clean ∧ valid = true := by
  unfold checkAddress
  split
  next h => simp [h]
  next h => simp [h, not_clean_reject]

theorem clean_checkWhitelist :
    (checkWhitelist platform policy toAddress result).Clean ↔
      result.Clean ∧ isOffWhitelist platform policy toAddress = false := by
  unfold checkWhitelist
  split
  next h => simp [h, not_clean_reject]
  next h => simp [h]

theorem clean_checkAmount :
    (checkAmount platform policy amountUSD result).Clean ↔
      result.Clean ∧ amountUSD ≤ policy.maxTransactionAmountUSD := by
  unfold checkAmount
  split
  next h => simp [PolicyEvaluationResult.Clean, not_le.mpr h]
  next h => simp [not_lt.mp h]

theorem clean_checkDailyLimit :
    (checkDailyLimit platform policy amountUSD result).Clean ↔
      result.Clean ∧ exceedsDailyLimit policy amountUSD = false := by
  unfold checkDailyLimit
  split
  next h => simp [h, not_clean_reject]
  next h => simp [h]

theorem clean_checkVelocity {recent : List ℤ} :
    (checkVelocity policy recent result).Clean ↔
      result.Clean ∧ (recent.length : ℚ) < policy.velocityLimitPerHour := by
  unfold checkVelocity
  split
  next h => simp [not_lt.mpr h, not_clean_reject]
  next h => simp [not_le.mp h]

theorem clean_checkContract :
    (checkContract policy simulation result).Clean ↔
      result.Clean ∧ isBlockedContract policy simulation = false := by
  unfold checkContract
  split
  next h => simp [h, PolicyEvaluationResult.Clean, PolicyEvaluationResult.reject]
  next h => simp [h]

theorem clean_requireApproval {bound : ℚ} {role : ApprovalRole} :
    (requireApproval bound role amountUSD result).Clean ↔ result.Clean := by
  unfold requireApproval
  split <;> rfl

theorem finalize_allowed {now : ℤ} : (finalize policy now result).allowed = true ↔ result.Clean := by
  have hrest : ∀ r : PolicyEvaluationResult, (if r.rejectionReasons ≠ [] then
      { r with allowed := false } else r).allowed = true ↔ r.Clean := by
    intro r
    split
    next h => simp [PolicyEvaluationResult.Clean, h]
    next h => simp [PolicyEvaluationResult.Clean, not_not.mp h]
  simp only [finalize]
  rw [hrest]
  split <;> rfl

theorem evaluateChecks_allowed {recent : List ℤ} {now : ℤ} :
    (evaluateChecks platform policy toAddress amountUSD recent simulation now result).allowed =
        true ↔
      result.Clean ∧ isOffWhitelist platform policy toAddress = false ∧
        amountUSD ≤ policy.maxTransactionAmountUSD ∧ exceedsDailyLimit policy amountUSD = false ∧
        (recent.length : ℚ) < policy.velocityLimitPerHour ∧
        isBlockedContract policy simulation = false := by
  simp only [evaluateChecks, finalize_allowed, clean_requireApproval, clean_checkContract,
    clean_checkVelocity, clean_checkDailyLimit, clean_checkAmount, clean_checkWhitelist, and_assoc]

variable {state : PolicyState} {now : ℤ} {cleanup : Option ℤ}

/-- **The verdict.** An evaluation that returns allows the transaction exactly when every
condition holds. -/
theorem evaluatePolicy_allowed_iff {state' : PolicyState}
    (h : evaluatePolicy platform state toAddress amountUSD simulation now cleanup =
      (state', .ok result)) :
    result.allowed = true ↔ PolicyAllows platform state toAddress amountUSD simulation now := by
  simp only [evaluatePolicy] at h
  split at h
  next hdisabled =>
    obtain rfl := Except.ok.inj (Prod.mk.inj h).2
    simp only [Bool.not_eq_true'] at hdisabled
    refine iff_of_false Bool.false_ne_true fun hall => ?_
    rw [hall.enabled] at hdisabled
    cases hdisabled
  next henabled =>
    simp only [Bool.not_eq_true', Bool.not_eq_false] at henabled
    split at h
    · cases (Prod.mk.inj h).2
    next valid hvalid =>
      split at h
      next hblack =>
        obtain rfl := Except.ok.inj (Prod.mk.inj h).2
        refine iff_of_false Bool.false_ne_true fun hall => ?_
        rw [hall.notBlacklisted] at hblack
        cases hblack
      next hblack =>
        obtain rfl := Except.ok.inj (Prod.mk.inj h).2
        rw [evaluateChecks_allowed, clean_checkAddress]
        constructor
        · rintro ⟨⟨-, rfl⟩, hwhite, hmax, hdaily, hvelocity, hcontract⟩
          exact ⟨henabled, hvalid, by simpa using hblack, hwhite, hmax, hdaily, hvelocity,
            hcontract⟩
        · intro hall
          have htrue : valid = true := Except.ok.inj (hvalid.symm.trans hall.valid)
          exact ⟨⟨clean_initialResult, htrue⟩, hall.whitelisted, hall.withinMaximum,
            hall.withinDailyLimit, hall.withinVelocity, hall.notMalicious⟩

theorem evaluatePolicy_returns (state : PolicyState) (amountUSD : ℚ)
    (simulation : Option TransactionSimulationResult) (now : ℤ) (cleanup : Option ℤ)
    (h : validateAddress platform (.string toAddress) = .ok true) :
    ∃ state' result, evaluatePolicy platform state toAddress amountUSD simulation now cleanup =
      (state', .ok result) := by
  simp only [evaluatePolicy, h]
  split
  · exact ⟨_, _, rfl⟩
  · split <;> exact ⟨_, _, rfl⟩

theorem evaluatePolicy_activePolicy (state : PolicyState) (toAddress : JSString) (amountUSD : ℚ)
    (simulation : Option TransactionSimulationResult) (now : ℤ) (cleanup : Option ℤ) :
    (evaluatePolicy platform state toAddress amountUSD simulation now cleanup).1.activePolicy =
      state.activePolicy := by
  simp only [evaluatePolicy]
  split
  · rfl
  · split
    · rfl
    · split <;> rfl

/-! ## Approvals of an allowed transaction -/

/-- What a result demands beyond the verdict. -/
def PolicyEvaluationResult.demands (result : PolicyEvaluationResult) : List ApprovalRole × Bool :=
  (result.pendingApprovals, result.requiresTimelock)

theorem demands_checkAddress {valid : Bool} :
    (checkAddress valid result).demands = result.demands := by
  unfold checkAddress
  split <;> rfl

theorem demands_checkWhitelist :
    (checkWhitelist platform policy toAddress result).demands = result.demands := by
  unfold checkWhitelist
  split <;> rfl

theorem demands_checkAmount (h : amountUSD ≤ policy.maxTransactionAmountUSD) :
    (checkAmount platform policy amountUSD result).demands = result.demands := by
  rw [checkAmount, if_neg (not_lt.mpr h)]

theorem demands_checkDailyLimit :
    (checkDailyLimit platform policy amountUSD result).demands = result.demands := by
  unfold checkDailyLimit
  split <;> rfl

theorem demands_checkVelocity {recent : List ℤ} :
    (checkVelocity policy recent result).demands = result.demands := by
  unfold checkVelocity
  split <;> rfl

theorem demands_checkContract :
    (checkContract policy simulation result).demands = result.demands := by
  unfold checkContract
  split <;> rfl

theorem demands_requireApproval {bound : ℚ} {role : ApprovalRole} :
    (requireApproval bound role amountUSD result).demands =
      if bound < amountUSD then (result.demands.1 ++ [role], true) else result.demands := by
  unfold requireApproval
  split <;> rfl

theorem demands_finalize :
    (finalize policy now result).demands =
      (result.demands.1, result.demands.2 || decide (result.demands.1 ≠ [])) := by
  have hallowed : ∀ r : PolicyEvaluationResult, (if r.rejectionReasons ≠ [] then
      { r with allowed := false } else r).demands = r.demands := by
    intro r
    split <;> rfl
  simp only [finalize]
  rw [hallowed]
  split
  next h => simp [PolicyEvaluationResult.demands, h]
  next h => simp [PolicyEvaluationResult.demands, not_not.mp h]

/-- The roles that must approve an amount, and whether it waits for a time lock. -/
def amountDemands (amountUSD : ℚ) : List ApprovalRole × Bool :=
  if 500000 < amountUSD then ([.TREASURY, .COMPLIANCE], true)
  else if 100000 < amountUSD then ([.TREASURY], true)
  else ([], false)

theorem evaluateChecks_demands {recent : List ℤ}
    (hmax : amountUSD ≤ policy.maxTransactionAmountUSD) (hnone : result.demands = ([], false)) :
    (evaluateChecks platform policy toAddress amountUSD recent simulation now result).demands =
      amountDemands amountUSD := by
  simp only [evaluateChecks]
  rw [demands_finalize, demands_requireApproval, demands_requireApproval, demands_checkContract,
    demands_checkVelocity, demands_checkDailyLimit, demands_checkAmount hmax,
    demands_checkWhitelist, hnone, amountDemands]
  by_cases hhigh : 500000 < amountUSD
  · have hlow : 100000 < amountUSD := lt_trans (by norm_num) hhigh
    simp [hhigh, hlow]
  · by_cases hlow : 100000 < amountUSD
    · simp [hhigh, hlow]
    · simp [hhigh, hlow]

/-- **Demands.** An allowed transaction still needs the approvals of its amount. -/
theorem evaluatePolicy_demands {state' : PolicyState}
    (h : evaluatePolicy platform state toAddress amountUSD simulation now cleanup =
      (state', .ok result)) (hallowed : result.allowed = true) :
    result.demands = amountDemands amountUSD := by
  have hall := (evaluatePolicy_allowed_iff h).mp hallowed
  simp only [evaluatePolicy, hall.enabled, hall.valid, hall.notBlacklisted, Bool.not_true,
    Bool.false_eq_true, if_false] at h
  obtain rfl := Except.ok.inj (Prod.mk.inj h).2
  exact evaluateChecks_demands hall.withinMaximum demands_checkAddress

end BioFire.Policy
