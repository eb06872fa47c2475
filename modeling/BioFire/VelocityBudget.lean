import BioFire.PolicyVerdict

/-!
# Velocity budgets (`src/lib/policy/policy_engine.ts`)

What an evaluation takes from the hourly budget of its destination, and which spellings of a
destination share one.

* `recentTxs_evaluate`: the entries of the last hour after an evaluation;
* `consumesNothing_iff`: a rejection consumes nothing exactly when it comes from an early exit;
* `oneVerdict_iff`: an address and its trimmed form share a verdict and a budget exactly when
  neither reaches the tracker, or they are the same.
-/

namespace BioFire.Policy

variable {platform : Platform} {state : PolicyState} {call : PolicyCall}

/-! ## The entries of the last hour -/

/-- The evaluation gets as far as the tracker. -/
structure ReachesTracker (platform : Platform) (state : PolicyState) (call : PolicyCall) :
    Prop where
  enabled : state.activePolicy.enabled = true
  checked : ∃ valid, validateAddress platform (.string call.toAddress) = .ok valid
  notBlacklisted : isBlacklisted platform state.activePolicy call.toAddress = false

theorem evaluate_reaches (h : ReachesTracker platform state call) :
    (evaluate platform state call).1 = { state with
        velocityTracker := trackerAfter state call.toAddress call.now call.cleanup } ∧
      ∃ result, (evaluate platform state call).2 = .ok result := by
  obtain ⟨henabled, ⟨valid, hvalid⟩, hblack⟩ := h
  simp only [evaluate, evaluatePolicy, henabled, hvalid, hblack, Bool.not_true, Bool.false_eq_true,
    if_false]
  exact ⟨rfl, _, rfl⟩

theorem evaluate_exits (h : ¬ReachesTracker platform state call) :
    (evaluate platform state call).1 = state := by
  simp only [evaluate, evaluatePolicy]
  split
  · rfl
  next henabled =>
    split
    · rfl
    next valid hvalid =>
      split
      · rfl
      next hblack =>
        refine absurd ⟨?_, ⟨valid, hvalid⟩, ?_⟩ h
        · simpa using henabled
        · simpa using hblack

/-- **The entries of the last hour** after an evaluation, at any later time: those before, and
the new one. -/
theorem recentTxs_evaluate (h : ReachesTracker platform state call) {T : ℤ}
    (hT : ∀ reading ∈ call.readings, reading ≤ T) (d : JSString) :
    recentTxs (evaluate platform state call).1 d T = recentTxs state d T ++
      if d = call.toAddress ∧ T - hour < call.now then [call.now] else [] := by
  have hnow : call.now ≤ T := hT _ List.mem_cons_self
  have hwindow : ∀ (time : ℤ) (times : List ℤ), time ≤ T →
      (times.filter fun t => time - hour < t).filter (fun t => T - hour < t) =
        times.filter fun t => T - hour < t := by
    intro time times htime
    rw [List.filter_filter]
    refine List.filter_congr fun t _ => ?_
    rw [Bool.and_eq_left_iff_imp, decide_eq_true_eq, decide_eq_true_eq]
    omega
  have hset : (trackedTimes (state.velocityTracker.set call.toAddress
      (recentTxs state call.toAddress call.now ++ [call.now])) d).filter (fun t => T - hour < t) =
      recentTxs state d T ++
        if d = call.toAddress ∧ T - hour < call.now then [call.now] else [] := by
    rw [trackedTimes_set]
    by_cases hd : d = call.toAddress
    · subst hd
      rw [if_pos rfl, List.filter_append, recentTxs, hwindow call.now _ hnow, ← recentTxs]
      by_cases hrecent : T - hour < call.now <;> simp [hrecent]
    · rw [if_neg hd, if_neg fun h => hd h.1, List.append_nil]
      rfl
  rw [(evaluate_reaches h).1, ← hset, recentTxs, ← trackedTimes]
  dsimp only
  unfold trackerAfter
  cases hcleanup : call.cleanup with
  | none => rfl
  | some time =>
    dsimp only
    rw [trackedTimes_cleanup, hwindow time _ (hT time (by simp [PolicyCall.readings, hcleanup]))]

open Classical in
/-- The entries at the time of an evaluation without a cleanup. -/
theorem recentTxs_evaluate_now (platform : Platform) (state : PolicyState) (call : PolicyCall)
    (hcleanup : call.cleanup = none) (d : JSString) :
    recentTxs (evaluate platform state call).1 d call.now = recentTxs state d call.now ++
      if ReachesTracker platform state call ∧ d = call.toAddress then [call.now] else [] := by
  have hrecent : call.now - hour < call.now := sub_lt_self call.now (by decide)
  by_cases hreaches : ReachesTracker platform state call
  · have hT : ∀ reading ∈ call.readings, reading ≤ call.now := by
      simp [PolicyCall.readings, hcleanup]
    rw [recentTxs_evaluate hreaches hT]
    simp [hreaches, hrecent]
  · rw [evaluate_exits hreaches]
    simp [hreaches]

/-! ## Rejections -/

/-- The call is evaluated and allowed. -/
def Allows (platform : Platform) (state : PolicyState) (call : PolicyCall) : Prop :=
  ∃ result, (evaluate platform state call).2 = .ok result ∧ result.allowed = true

/-- The call is evaluated and rejected. -/
def Rejects (platform : Platform) (state : PolicyState) (call : PolicyCall) : Prop :=
  ∃ result, (evaluate platform state call).2 = .ok result ∧ result.allowed = false

theorem allows_iff : Allows platform state call ↔ PolicyAllows platform state call.toAddress
    call.amountUSD call.simulation call.now := exists_allowed_iff

/-- Verdicts depend on the policy and on the entries of the last hour. -/
theorem allows_congr {state' : PolicyState} (hpolicy : state'.activePolicy = state.activePolicy)
    (hrecent : recentTxs state' call.toAddress call.now = recentTxs state call.toAddress call.now) :
    Allows platform state' call ↔ Allows platform state call := by
  rw [allows_iff, allows_iff]
  constructor
  · rintro ⟨h₁, h₂, h₃, h₄, h₅, h₆, h₇, h₈⟩
    rw [hpolicy] at h₁ h₃ h₄ h₅ h₆ h₈
    rw [hpolicy, hrecent] at h₇
    exact ⟨h₁, h₂, h₃, h₄, h₅, h₆, h₇, h₈⟩
  · rintro ⟨h₁, h₂, h₃, h₄, h₅, h₆, h₇, h₈⟩
    rw [← hpolicy] at h₁ h₃ h₄ h₅ h₆ h₈
    rw [← hpolicy, ← hrecent] at h₇
    exact ⟨h₁, h₂, h₃, h₄, h₅, h₆, h₇, h₈⟩

/-- If the call is rejected, then whatever is cleaned on the way, the entries of the last hour
and the verdicts stay as they are at every later time. -/
def ConsumesNothing (platform : Platform) (state : PolicyState) (call : PolicyCall) : Prop :=
  Rejects platform state call → ∀ cleanup T,
    (∀ reading ∈ { call with cleanup }.readings, reading ≤ T) →
    (∀ d, recentTxs (evaluate platform state { call with cleanup }).1 d T = recentTxs state d T) ∧
    ∀ later : PolicyCall, later.now = T →
      (Allows platform (evaluate platform state { call with cleanup }).1 later ↔
        Allows platform state later)

/-- A check behind the blacklist, or the format of the address, rejects the call. -/
def RejectsLate (platform : Platform) (state : PolicyState) (call : PolicyCall) : Prop :=
  ReachesTracker platform state call ∧ ∃ check, fails platform state call check = true

/-- **Rejections.** They consume nothing exactly when they come from an early exit. -/
theorem consumesNothing_iff (platform : Platform) (state : PolicyState) (call : PolicyCall) :
    ConsumesNothing platform state call ↔ ¬RejectsLate platform state call := by
  constructor
  · rintro h ⟨hreaches, check, hfails⟩
    obtain ⟨-, result, hresult⟩ := evaluate_reaches hreaches
    have hrejects : Rejects platform state call := by
      refine ⟨result, hresult, Bool.eq_false_iff.mpr fun hallowed => ?_⟩
      have hpasses := (evaluate_allowed_iff hresult).mp hallowed check
      rw [hfails] at hpasses
      cases hpasses
    have hT : ∀ reading ∈ { call with cleanup := none : PolicyCall }.readings,
        reading ≤ call.now := by
      simp [PolicyCall.readings]
    have hsame := (h hrejects none call.now hT).1 call.toAddress
    have hreaches' : ReachesTracker platform state { call with cleanup := none } :=
      ⟨hreaches.1, hreaches.2, hreaches.3⟩
    have hadded := recentTxs_evaluate_now platform state { call with cleanup := none } rfl
      call.toAddress
    rw [hsame, if_pos ⟨hreaches', rfl⟩] at hadded
    have hlength := congrArg List.length hadded
    simp at hlength
  · intro h hrejects cleanup T hT
    have hexits : (evaluate platform state { call with cleanup }).1 = state := by
      refine evaluate_exits fun hreaches => h ⟨⟨hreaches.1, hreaches.2, hreaches.3⟩, ?_⟩
      obtain ⟨result, hresult, hrejected⟩ := hrejects
      by_contra hpasses
      rw [not_exists] at hpasses
      rw [(evaluate_allowed_iff hresult).mpr fun check => Bool.eq_false_iff.mpr (hpasses check)]
        at hrejected
      cases hrejected
    rw [hexits]
    exact ⟨fun _ => rfl, fun _ _ => Iff.rfl⟩

/-- A valid address outside the whitelist is rejected and takes the next entry of its budget. -/
theorem rejected_call_consumes :
    Rejects asciiPlatform whitelistPolicy (smallCall 0) ∧
      recentTxs (evaluate asciiPlatform whitelistPolicy (smallCall 0)).1 (smallCall 0).toAddress 0 =
        [0] ∧
      ¬ConsumesNothing asciiPlatform whitelistPolicy (smallCall 0) := by
  have hrejects : Rejects asciiPlatform whitelistPolicy (smallCall 0) :=
    ⟨_, rfl, by with_unfolding_all decide⟩
  have hadded : recentTxs (evaluate asciiPlatform whitelistPolicy (smallCall 0)).1
      (smallCall 0).toAddress 0 = [0] := by
    decide
  refine ⟨hrejects, hadded, fun h => ?_⟩
  have hT : ∀ reading ∈ { smallCall 0 with cleanup := some 0 : PolicyCall }.readings,
      reading ≤ 0 := by
    decide
  have hsame := (h hrejects (some 0) 0 hT).1 (smallCall 0).toAddress
  have hnone : recentTxs whitelistPolicy (smallCall 0).toAddress 0 = [] := by decide
  rw [hnone] at hsame
  exact List.cons_ne_nil 0 [] (hadded.symm.trans hsame)

/-! ## Spellings of a destination -/

theorem trim_trim (s : JSString) : trim (trim s) = trim s := by
  have hstart : (trim s).dropWhile isWhitespace = trim s := by
    rw [List.dropWhile_eq_self_iff]
    intro hpos hspace
    have hhead : (trim s)[0]? = (s.dropWhile isWhitespace)[0]? := by
      obtain ⟨rest, hrest⟩ := List.rdropWhile_prefix isWhitespace (s.dropWhile isWhitespace)
      rw [← hrest, ← trim, List.getElem?_append_left hpos]
    rw [List.getElem?_eq_getElem hpos] at hhead
    obtain ⟨hlt, hget⟩ := List.getElem?_eq_some_iff.mp hhead.symm
    rw [← hget] at hspace
    exact List.dropWhile_get_zero_not isWhitespace s hlt hspace
  rw [trim, hstart, trim, List.rdropWhile_idempotent]

theorem validateAddress_trim (platform : Platform) (s : JSString) :
    validateAddress platform (.string (trim s)) = validateAddress platform (.string s) := by
  by_cases hs : s = []
  · rw [hs]
    rfl
  · by_cases htrim : trim s = []
    · simp [validateAddress, hs, htrim]
    · simp only [validateAddress, trim_trim, hs, htrim, if_false]

/-- The same request for the trimmed address. -/
def PolicyCall.trimmed (call : PolicyCall) : PolicyCall :=
  { call with toAddress := trim call.toAddress }

/-- Whether a result reports the blacklist, whether it reports the whitelist, and the flag. -/
def PolicyEvaluationResult.outcome (result : PolicyEvaluationResult) : Bool × Bool × Bool :=
  (result.rejectionReasons.contains (js "Destination address is blacklisted"),
    result.rejectionReasons.contains (js "Destination address not in whitelist"), result.allowed)

/-- Whatever is cleaned on the way, both spellings have one outcome, and every later check finds
the same entries whichever of them was evaluated. -/
def OneVerdict (platform : Platform) (state : PolicyState) (call : PolicyCall) : Prop :=
  ∀ cleanup, let evaluated := evaluate platform state { call with cleanup }
    let evaluated' := evaluate platform state { call.trimmed with cleanup }
    evaluated.2.map PolicyEvaluationResult.outcome =
        evaluated'.2.map PolicyEvaluationResult.outcome ∧
      ∀ T, (∀ reading ∈ { call with cleanup }.readings, reading ≤ T) →
        ∀ d, recentTxs evaluated.1 d T = recentTxs evaluated'.1 d T

/-- Whichever spelling was evaluated, later calls have one verdict. -/
theorem OneVerdict.allows_iff (h : OneVerdict platform state call) {cleanup : Option ℤ}
    {later : PolicyCall} (hlater : ∀ reading ∈ { call with cleanup }.readings,
      reading ≤ later.now) :
    Allows platform (evaluate platform state { call with cleanup }).1 later ↔
      Allows platform (evaluate platform state { call.trimmed with cleanup }).1 later := by
  have hpolicy : ∀ evaluated, (evaluate platform state evaluated).1.activePolicy =
      state.activePolicy := by
    intro evaluated
    by_cases hreaches : ReachesTracker platform state evaluated
    · rw [(evaluate_reaches hreaches).1]
    · rw [evaluate_exits hreaches]
  refine allows_congr ?_ ((h cleanup).2 later.now hlater later.toAddress)
  rw [hpolicy, hpolicy]

/-- An early exit is taken for both spellings: the engine is off, the format check throws, or
both are on the blacklist. -/
def ExitsForBoth (platform : Platform) (state : PolicyState) (toAddress : JSString) : Prop :=
  state.activePolicy.enabled = false ∨
    (∃ e, validateAddress platform (.string toAddress) = .error e) ∨
    isBlacklisted platform state.activePolicy toAddress = true ∧
      isBlacklisted platform state.activePolicy (trim toAddress) = true

theorem evaluate_exitsForBoth (h : ExitsForBoth platform state call.toAddress) :
    (evaluate platform state call).1 = state ∧ (evaluate platform state call.trimmed).1 = state ∧
      (evaluate platform state call).2 = (evaluate platform state call.trimmed).2 := by
  simp only [evaluate, evaluatePolicy, PolicyCall.trimmed, validateAddress_trim]
  rcases h with hdisabled | ⟨e, he⟩ | ⟨hblack, hblack'⟩
  · simp [hdisabled]
  · simp only [he]
    split <;> simp
  · simp only [hblack, hblack', if_true]
    split
    · simp
    · split <;> simp

/-- **One destination.** An address and its trimmed form share verdict and budget exactly when
they are the same or an early exit is taken for both. -/
theorem oneVerdict_iff (platform : Platform) (state : PolicyState) (call : PolicyCall) :
    OneVerdict platform state call ↔
      trim call.toAddress = call.toAddress ∨ ExitsForBoth platform state call.toAddress := by
  constructor
  · intro h
    by_contra hnot
    rw [not_or, ExitsForBoth, not_or, not_or] at hnot
    obtain ⟨hspaces, henabled, hchecked, hblack⟩ := hnot
    have hvalid : ∃ valid, validateAddress platform (.string call.toAddress) = .ok valid := by
      cases hresult : validateAddress platform (.string call.toAddress) with
      | error e => exact absurd ⟨e, hresult⟩ hchecked
      | ok valid => exact ⟨valid, rfl⟩
    have hvalid' : ∃ valid, validateAddress platform (.string (trim call.toAddress)) = .ok valid :=
      validateAddress_trim platform call.toAddress ▸ hvalid
    rw [Bool.not_eq_false] at henabled
    have hT : ∀ reading ∈ { call with cleanup := none : PolicyCall }.readings,
        reading ≤ call.now := by
      simp [PolicyCall.readings]
    have hsame := (h none).2 call.now hT
    have hafter := recentTxs_evaluate_now platform state { call with cleanup := none } rfl
    have hafter' := recentTxs_evaluate_now platform state { call.trimmed with cleanup := none } rfl
    have hexits : ¬ReachesTracker platform state { call with cleanup := none } := by
      intro hreaches
      have hone := (hafter call.toAddress).symm.trans
        ((hsame call.toAddress).trans (hafter' call.toAddress))
      rw [if_pos ⟨hreaches, rfl⟩, if_neg fun hd => hspaces hd.2.symm] at hone
      exact List.cons_ne_nil _ _ (List.append_cancel_left hone)
    have hexits' : ¬ReachesTracker platform state { call.trimmed with cleanup := none } := by
      intro hreaches
      have hone := (hafter (trim call.toAddress)).symm.trans
        ((hsame (trim call.toAddress)).trans (hafter' (trim call.toAddress)))
      rw [if_neg fun hd => hspaces hd.2, if_pos ⟨hreaches, rfl⟩] at hone
      exact List.cons_ne_nil _ _ (List.append_cancel_left hone).symm
    refine hblack ⟨?_, ?_⟩
    · rw [← Bool.not_eq_false]
      exact fun hlisted => hexits ⟨henabled, hvalid, hlisted⟩
    · rw [← Bool.not_eq_false]
      exact fun hlisted => hexits' ⟨henabled, hvalid', hlisted⟩
  · rintro (hsame | hexits) cleanup
    · have htrimmed : call.trimmed = call := by rw [PolicyCall.trimmed, hsame]
      rw [htrimmed]
      exact ⟨rfl, fun _ _ _ => rfl⟩
    · have hexits' : ExitsForBoth platform state { call with cleanup : PolicyCall }.toAddress :=
        hexits
      obtain ⟨hstate, hstate', hresult⟩ := evaluate_exitsForBoth hexits'
      have htrimmed : { call with cleanup : PolicyCall }.trimmed =
        { call.trimmed with cleanup } := rfl
      rw [htrimmed] at hstate' hresult
      dsimp only
      rw [hstate, hstate', hresult]
      exact ⟨rfl, fun _ _ _ => rfl⟩

/-- One address is not to be paid. -/
def sanctionPolicy : PolicyState :=
  ⟨{ defaultPolicy with blacklistedAddresses := [(smallCall 0).toAddress] }, .empty⟩

/-- A payment to that address, written with a leading space. -/
def spacedCall : PolicyCall :=
  { smallCall 0 with toAddress := js " " ++ (smallCall 0).toAddress, cleanup := none }

/-- With the space the payment is allowed, without it the address is on the blacklist. -/
theorem spaced_address_allowed :
    (∃ result, (evaluate asciiPlatform sanctionPolicy spacedCall).2 = .ok result ∧
      result.outcome = (false, false, true)) ∧
      (∃ result, (evaluate asciiPlatform sanctionPolicy spacedCall.trimmed).2 = .ok result ∧
        result.outcome = (true, false, false)) ∧
      ¬OneVerdict asciiPlatform sanctionPolicy spacedCall := by
  have hspaced : ∃ result, (evaluate asciiPlatform sanctionPolicy spacedCall).2 = .ok result ∧
      result.outcome = (false, false, true) :=
    ⟨_, rfl, by with_unfolding_all decide⟩
  have htrimmed : ∃ result, (evaluate asciiPlatform sanctionPolicy spacedCall.trimmed).2 =
      .ok result ∧ result.outcome = (true, false, false) :=
    ⟨_, rfl, by decide⟩
  refine ⟨hspaced, htrimmed, fun h => ?_⟩
  obtain ⟨result, hresult, houtcome⟩ := hspaced
  obtain ⟨result', hresult', houtcome'⟩ := htrimmed
  have hsame : (evaluate asciiPlatform sanctionPolicy spacedCall).2.map
        PolicyEvaluationResult.outcome =
      (evaluate asciiPlatform sanctionPolicy spacedCall.trimmed).2.map
        PolicyEvaluationResult.outcome := (h none).1
  rw [hresult, hresult', Except.map, Except.map, houtcome, houtcome'] at hsame
  cases hsame

end BioFire.Policy
