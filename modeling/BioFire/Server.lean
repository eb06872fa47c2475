import BioFire.Policy
import BioFire.Runs
import BioFire.Signing

/-!
# The signing endpoint (`server.ts`)

The handler of `POST /api/v6/mpc/sign` up to its call of `executeThresholdSigning`.

* `signDecision_of_maySign`, `maySign_of_signing`: which requests reach the call;
* `sign_cleared_iff`: the call waits for no approval and no time lock;
* `completed_le_limit`: the daily limit over a run of requests.
-/

namespace BioFire.Server

open Policy Runs

/-- The fields of the request body; an absent one is `undefined`. -/
structure SignRequest where
  chainId : JSValue
  amount : JSValue
  symbol : JSValue
  toAddress : JSValue
  dropNodeId : JSValue

/-- What the handler comes to before `executeThresholdSigning`. -/
inductive SignDecision where
  | badRequest (error : JSString)
  | blocked (policyResult : PolicyEvaluationResult)
  | failed (e : JSError)
  | signing (policyResult : PolicyEvaluationResult)

/-- `parseFloat(amount) * 3200` -/
def amountUSD : JSValue → ℚ
  | .string amount => binary64.round (parseFloat amount * 3200)
  | _ => 0

variable (platform : Platform)

/-- The handler up to the call. `validateAmount` and `validateAddress` accept strings
only. -/
def signDecision (state : PolicyState) (request : SignRequest) (now : ℤ) (cleanup : Option ℤ) :
    PolicyState × SignDecision :=
  match validateChainId platform request.chainId with
  | .error e => (state, .failed e)
  | .ok false => (state, .badRequest (js "Invalid chainId"))
  | .ok true =>
    let amountValidation := validateAmount request.amount
    if !amountValidation.valid then (state, .badRequest (amountValidation.error.getD []))
    else
      match validateAddress platform request.toAddress, request.toAddress with
      | .error e, _ => (state, .failed e)
      | .ok true, .string toAddress =>
        let sim := simulateTransaction platform state.activePolicy toAddress
        match evaluatePolicy platform state toAddress (amountUSD request.amount) (some sim) now
          cleanup with
        | (state', .error e) => (state', .failed e)
        | (state', .ok policyResult) =>
          if !policyResult.allowed then (state', .blocked policyResult)
          else (state', .signing policyResult)
      | .ok _, _ => (state, .badRequest (js "Invalid destination address"))

/-! ## Requests that reach the ceremony -/

/-- The request is well formed and the policy allows it. -/
structure MaySign (state : PolicyState) (request : SignRequest) (now : ℤ) : Prop where
  chainId : validateChainId platform request.chainId = .ok true
  amount : (validateAmount request.amount).valid = true
  allowed : ∃ toAddress, request.toAddress = .string toAddress ∧
    PolicyAllows platform state toAddress (amountUSD request.amount)
      (some (simulateTransaction platform state.activePolicy toAddress)) now

variable {platform} {state : PolicyState} {request : SignRequest} {now : ℤ} {cleanup : Option ℤ}

/-- A request that may be signed is evaluated, and the call follows. -/
theorem signDecision_of_maySign (cleanup : Option ℤ) (h : MaySign platform state request now) :
    ∃ policyResult, (signDecision platform state request now cleanup).2 = .signing policyResult ∧
      policyResult.demands = amountDemands (amountUSD request.amount) := by
  obtain ⟨toAddress, haddress, hallowed⟩ := h.allowed
  obtain ⟨state', policyResult, heval⟩ := evaluatePolicy_returns state (amountUSD request.amount)
    (some (simulateTransaction platform state.activePolicy toAddress)) now cleanup hallowed.valid
  have hresult : policyResult.allowed = true := (evaluatePolicy_allowed_iff heval).mpr hallowed
  refine ⟨policyResult, ?_, evaluatePolicy_demands heval hresult⟩
  simp only [signDecision, h.chainId, h.amount, haddress, hallowed.valid, heval, hresult,
    Bool.not_true, Bool.false_eq_true, if_false]

theorem maySign_of_signing {policyResult : PolicyEvaluationResult}
    (h : (signDecision platform state request now cleanup).2 = .signing policyResult) :
    MaySign platform state request now ∧ policyResult.allowed = true := by
  simp only [signDecision] at h
  split at h
  · cases h
  · cases h
  next hchain =>
    split at h
    · cases h
    next hamount =>
      split at h
      · cases h
      next toAddress _ haddress =>
        split at h
        · cases h
        next state' other heval =>
          split at h
          · cases h
          next hallowed =>
            obtain rfl : other = policyResult := SignDecision.signing.inj h
            have hresult : other.allowed = true := by simpa using hallowed
            exact ⟨⟨hchain, by simpa using hamount, toAddress, haddress,
              (evaluatePolicy_allowed_iff heval).mp hresult⟩, hresult⟩
      · cases h

theorem signDecision_activePolicy :
    (signDecision platform state request now cleanup).1.activePolicy = state.activePolicy := by
  simp only [signDecision]
  split
  · rfl
  · rfl
  · split
    · rfl
    · split
      · rfl
      next toAddress _ _ =>
        split
        next heval => rw [← evaluatePolicy_activePolicy state toAddress, heval]
        next heval =>
          rw [← evaluatePolicy_activePolicy state toAddress, heval]
          split <;> rfl
      · rfl

/-! ## Approvals and time lock -/

/-- The time lock of a result is running. -/
def TimelockRunning (policyResult : PolicyEvaluationResult) (time : ℤ) : Prop :=
  policyResult.requiresTimelock = true ∧
    ∀ expiry, policyResult.timelockExpiry = some expiry → (time : ℚ) < expiry

/-- A result that waits for nothing. -/
def Cleared (policyResult : PolicyEvaluationResult) (time : ℤ) : Prop :=
  policyResult.allowed = true ∧ policyResult.pendingApprovals = [] ∧
    ¬ TimelockRunning policyResult time

/-- **The gate.** The handler calls the ceremony on cleared results only, exactly when
the request does not pass with an amount above 100000 USD. -/
theorem sign_cleared_iff {time : ℤ} :
    (∀ policyResult, (signDecision platform state request now cleanup).2 = .signing policyResult →
        Cleared policyResult time) ↔
      ¬ (MaySign platform state request now ∧ 100000 < amountUSD request.amount) := by
  constructor
  · rintro h ⟨hmay, hamount⟩
    obtain ⟨policyResult, hsigning, hdemands⟩ := signDecision_of_maySign cleanup hmay
    have hpending : policyResult.pendingApprovals = (amountDemands (amountUSD request.amount)).1 :=
      congrArg Prod.fst hdemands
    rw [(h policyResult hsigning).2.1, amountDemands] at hpending
    split at hpending <;> cases hpending
  · intro h policyResult hsigning
    obtain ⟨hmay, hallowed⟩ := maySign_of_signing hsigning
    have hamount : ¬ 100000 < amountUSD request.amount := fun hlt => h ⟨hmay, hlt⟩
    have hhigh : ¬ 500000 < amountUSD request.amount := fun hlt =>
      hamount (lt_trans (by norm_num) hlt)
    obtain ⟨other, hother, hdemands⟩ := signDecision_of_maySign cleanup hmay
    obtain rfl : other = policyResult := SignDecision.signing.inj (hother.symm.trans hsigning)
    rw [amountDemands, if_neg hhigh, if_neg hamount] at hdemands
    have htimelock : other.requiresTimelock = false := congrArg Prod.snd hdemands
    refine ⟨hallowed, congrArg Prod.fst hdemands, ?_⟩
    rintro ⟨htrue, -⟩
    rw [htimelock] at htrue
    cases htrue

def bitcoinRequest (amount : JSString) : SignRequest where
  chainId := .string (js "bitcoin")
  amount := .string amount
  symbol := .string (js "BTC")
  toAddress := .string (js "bc1qar0srrr7xfkvy5l643lydnw9re59gtzzwf5mdq")
  dropNodeId := .undefined

def defaultState : PolicyState := ⟨defaultPolicy, .empty⟩

/-- An amount of 160000 USD is signed while its approval is outstanding and its time
lock runs. -/
theorem unapproved_amount_signed :
    ∃ policyResult, (signDecision asciiPlatform defaultState (bitcoinRequest (js "50")) 0
        none).2 = .signing policyResult ∧
      policyResult.pendingApprovals = [.TREASURY] ∧ TimelockRunning policyResult 0 ∧
      ¬ Cleared policyResult 0 := by
  obtain ⟨policyResult, hsigning, hpending, hlock, hexpiry⟩ :
      ∃ r, (signDecision asciiPlatform defaultState (bitcoinRequest (js "50")) 0 none).2 =
          .signing r ∧
        r.pendingApprovals = [.TREASURY] ∧ r.requiresTimelock = true ∧
        r.timelockExpiry = some 1800000 :=
    ⟨_, by with_unfolding_all rfl, by with_unfolding_all rfl, by with_unfolding_all rfl,
      by with_unfolding_all rfl⟩
  refine ⟨policyResult, hsigning, hpending, ⟨hlock, fun expiry h => ?_⟩, fun hcleared => ?_⟩
  · rw [hexpiry] at h
    rw [← Option.some.inj h]
    norm_num
  · rw [hcleared.2.1] at hpending
    cases hpending

/-! ## The daily limit -/

/-- One request, with the clock and the way its ceremony settles. -/
structure SignCall where
  request : SignRequest
  now : ℤ
  cleanup : Option ℤ
  ceremony : Except JSError Mpc.SigningCeremonyState

/-- The policy state, and the total amount of the completed ceremonies. -/
structure SpendingState where
  policy : PolicyState
  completedUSD : ℚ

/-- The amount of a call whose ceremony was completed, zero for the others. -/
def completedAmount (decision : SignDecision) (call : SignCall) : ℚ :=
  match decision, call.ceremony with
  | .signing _, .ok _ => amountUSD call.request.amount
  | _, _ => 0

def signStep (platform : Platform) (s : SpendingState) (call : SignCall) : SpendingState :=
  let (policy, decision) := signDecision platform s.policy call.request call.now call.cleanup
  ⟨policy, s.completedUSD + completedAmount decision call⟩

/-- The state after `resetDailySpending`. -/
def afterReset (state : PolicyState) : SpendingState := ⟨resetDailySpending state, 0⟩

/-- The recorded total is the total of the completed ceremonies. -/
def RecordedInFull (s : SpendingState) (_ : SignCall) : Prop :=
  s.policy.activePolicy.currentDailySpendingUSD = s.completedUSD

/-- A completed amount is within what the recorded total leaves of the limit. -/
theorem completedAmount_le {call : SignCall} {limit : ℚ}
    (hrecorded : state.activePolicy.currentDailySpendingUSD = 0)
    (hlimit : state.activePolicy.maxDailySpendingUSD = limit) (hpos : 0 ≤ limit) :
    completedAmount (signDecision platform state call.request call.now call.cleanup).2 call ≤
      limit := by
  cases hdecision : (signDecision platform state call.request call.now call.cleanup).2 with
  | badRequest => exact hpos
  | blocked => exact hpos
  | failed => exact hpos
  | signing policyResult =>
    simp only [completedAmount]
    split
    next =>
      obtain ⟨toAddress, -, hallowed⟩ := (maySign_of_signing hdecision).1.allowed
      have hdaily := hallowed.withinDailyLimit
      rw [exceedsDailyLimit, hrecorded, hlimit, zero_add, decide_eq_false_iff_not, not_lt] at hdaily
      have hround : binary64.round (amountUSD call.request.amount) =
          amountUSD call.request.amount := by
        cases call.request.amount <;> simp [amountUSD]
      rwa [hround] at hdaily
    next => exact hpos

/-- **The daily limit.** In a run in which every request meets a recorded total that is
the total of the completed ceremonies, that total stays within the limit. -/
theorem completed_le_limit {start : PolicyState}
    (hpos : 0 ≤ start.activePolicy.maxDailySpendingUSD) {calls : List SignCall}
    (h : Always (signStep platform) (afterReset start) calls RecordedInFull) :
    (run (signStep platform) (afterReset start) calls).completedUSD ≤
      start.activePolicy.maxDailySpendingUSD := by
  have hinv := run_induction
    (fun _ s => s.policy.activePolicy = (resetDailySpending start).activePolicy ∧
      s.completedUSD ≤ start.activePolicy.maxDailySpendingUSD) ⟨rfl, hpos⟩ ?_ h
  · exact hinv.2
  · rintro past call ⟨hpolicy, -⟩ hrecorded
    rw [RecordedInFull, hpolicy] at hrecorded
    refine ⟨signDecision_activePolicy.trans hpolicy, ?_⟩
    change (run (signStep platform) (afterReset start) past).completedUSD + _ ≤ _
    rw [← hrecorded]
    change 0 + _ ≤ _
    rw [zero_add]
    exact completedAmount_le (by rw [hpolicy]; rfl) (by rw [hpolicy]; rfl) hpos

/-- A request for 320000 USD whose ceremony is completed. -/
def completedCall : SignCall where
  request := bitcoinRequest (js "100")
  now := 0
  cleanup := none
  ceremony := .ok {
    ceremonyId := [], dkgSessionId := [], chainId := js "bitcoin", curve := [], messageHash := []
    amount := js "100", symbol := js "BTC", toAddress := [], currentRound := .COMPLETED
    activeSigners := [], partialSignatures := [], nonceCommitments := [], mtaProofs := []
    consistencyChecks := [], finalSignature := ⟨[], [], 27, []⟩, durationMs := 0, logs := []
    createdAt := 0 }

theorem completed_le_limit_once :
    (run (signStep asciiPlatform) (afterReset defaultState) [completedCall]).completedUSD ≤
        defaultState.activePolicy.maxDailySpendingUSD ∧
      (run (signStep asciiPlatform) (afterReset defaultState) [completedCall]).completedUSD =
        320000 :=
  ⟨completed_le_limit (by with_unfolding_all decide) (always_cons.mpr ⟨rfl, always_nil⟩),
    by with_unfolding_all decide⟩

/-- Seven of them exceed the limit of 2000000 USD. -/
theorem seven_ceremonies_exceed :
    defaultState.activePolicy.maxDailySpendingUSD <
      (run (signStep asciiPlatform) (afterReset defaultState)
        (List.replicate 7 completedCall)).completedUSD := by
  decide +kernel

end BioFire.Server
