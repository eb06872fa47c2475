import BioFire.Policy
import BioFire.Runs
import BioFire.SlidingWindow

/-!
# The velocity limit over a run

Evaluations one after another, on a clock that does not go back. The tracker holds every
evaluation of the last hour, allowed or not, whatever the cleaning removes.

* `trackedTimes_cleanup`: the cleaning keeps the entries of the last hour;
* `velocityInvariant_step`: the tracker covers the allowed evaluations;
* `velocity_bound`: no hour holds more of them than the limit.
-/

namespace BioFire.Policy

open Runs SlidingWindow

/-- An hour in milliseconds. -/
abbrev hour : ℤ := 3600 * 1000

/-! ## The tracker -/

/-- The times of a destination. -/
def trackedTimes (tracker : InsertionMap JSString (List ℤ)) (toAddress : JSString) : List ℤ :=
  (tracker.get toAddress).getD []

theorem trackedTimes_set (tracker : InsertionMap JSString (List ℤ)) (addr toAddress : JSString)
    (times : List ℤ) :
    trackedTimes (tracker.set addr times) toAddress =
      if toAddress = addr then times else trackedTimes tracker toAddress := by
  unfold trackedTimes
  rw [InsertionMap.get_set]
  split <;> rfl

theorem trackedTimes_delete (tracker : InsertionMap JSString (List ℤ)) (addr toAddress : JSString) :
    trackedTimes (tracker.delete addr) toAddress =
      if toAddress = addr then [] else trackedTimes tracker toAddress := by
  unfold trackedTimes
  rw [InsertionMap.get_delete]
  split <;> rfl

/-- **The cleaning** removes what is older than an hour, and nothing else. -/
theorem trackedTimes_cleanup (tracker : InsertionMap JSString (List ℤ)) (now : ℤ)
    (toAddress : JSString) :
    trackedTimes (cleanupVelocityTracker tracker now) toAddress =
      (trackedTimes tracker toAddress).filter fun t => now - hour < t := by
  have hloop : ∀ (l : List (JSString × List ℤ)) (hnodup : (l.map Prod.fst).Nodup)
      (m : InsertionMap JSString (List ℤ)),
      trackedTimes (l.foldl (fun m entry =>
        let filtered := entry.2.filter fun t => now - hour < t
        if filtered = [] then m.delete entry.1 else m.set entry.1 filtered) m) toAddress =
        ((InsertionMap.mk l hnodup).get toAddress).elim (trackedTimes m toAddress)
          (List.filter fun t => now - hour < t) := by
    intro l
    induction l with
    | nil => exact fun _ _ => rfl
    | cons entry l ih =>
      intro hnodup m
      obtain ⟨addr, times⟩ := entry
      obtain ⟨hfresh, hrest⟩ := List.nodup_cons.mp hnodup
      rw [List.foldl_cons, ih hrest, InsertionMap.get_cons]
      by_cases haddr : toAddress = addr
      · subst haddr
        have hnone : (InsertionMap.mk l hrest).get toAddress = none := by
          rw [← Option.not_isSome_iff_eq_none, InsertionMap.get_isSome_iff]
          exact hfresh
        rw [hnone, if_pos rfl]
        dsimp only [Option.elim]
        split
        next hempty => simp [trackedTimes_delete, hempty]
        next => simp [trackedTimes_set]
      · rw [if_neg haddr]
        cases (InsertionMap.mk l hrest).get toAddress with
        | some times' => rfl
        | none =>
          dsimp only [Option.elim]
          split
          · simp [trackedTimes_delete, haddr]
          · simp [trackedTimes_set, haddr]
  refine (hloop tracker.entries tracker.nodup tracker).trans ?_
  change (tracker.get toAddress).elim _ _ = _
  unfold trackedTimes
  cases tracker.get toAddress with
  | some times => rfl
  | none => rfl

/-! ## One evaluation -/

variable {platform : Platform}

/-- The tracker after an evaluation that was not refused at once. -/
def trackerAfter (state : PolicyState) (toAddress : JSString) (now : ℤ) (cleanup : Option ℤ) :
    InsertionMap JSString (List ℤ) :=
  let tracker := state.velocityTracker.set toAddress (recentTxs state toAddress now ++ [now])
  match cleanup with
  | none => tracker
  | some time => cleanupVelocityTracker tracker time

variable (platform) in
/-- **One evaluation** is refused at once, or is tracked. -/
theorem evaluatePolicy_tracks (state : PolicyState) (toAddress : JSString) (amountUSD : ℚ)
    (simulation : Option TransactionSimulationResult) (now : ℤ) (cleanup : Option ℤ) :
    ((evaluatePolicy platform state toAddress amountUSD simulation now cleanup).1 = state ∧
      ∀ result, (evaluatePolicy platform state toAddress amountUSD simulation now cleanup).2 =
        .ok result → result.allowed = false) ∨
    (evaluatePolicy platform state toAddress amountUSD simulation now cleanup).1 =
      { state with velocityTracker := trackerAfter state toAddress now cleanup } := by
  unfold evaluatePolicy
  dsimp only
  split
  · refine Or.inl ⟨rfl, ?_⟩
    rintro result ⟨⟩
    rfl
  split
  · refine Or.inl ⟨rfl, ?_⟩
    rintro result ⟨⟩
  split
  · refine Or.inl ⟨rfl, ?_⟩
    rintro result ⟨⟩
    rfl
  · exact Or.inr rfl

/-- A call with its readings of the clock: the evaluation, and the cleaning if there is one. -/
structure PolicyCall where
  toAddress : JSString
  amountUSD : ℚ
  simulation : Option TransactionSimulationResult
  now : ℤ
  cleanup : Option ℤ

def PolicyCall.readings (call : PolicyCall) : List ℤ := call.now :: call.cleanup.toList

/-- The module, and the allowed evaluations with their destinations and times. -/
structure MeteredState where
  policy : PolicyState
  allowed : List (JSString × ℤ)

def meteredStep (platform : Platform) (state : MeteredState) (call : PolicyCall) : MeteredState :=
  let outcome := evaluatePolicy platform state.policy call.toAddress call.amountUSD
    call.simulation call.now call.cleanup
  { policy := outcome.1
    allowed :=
      match outcome.2 with
      | .ok result =>
        if result.allowed then state.allowed ++ [(call.toAddress, call.now)] else state.allowed
      | .error _ => state.allowed }

/-- The times at which a destination was allowed. -/
def MeteredState.allowedTimes (state : MeteredState) (toAddress : JSString) : List ℤ :=
  (state.allowed.filter fun e => e.1 = toAddress).map Prod.snd

/-! ## The invariant -/

/-- The allowed evaluations are not after `clock`, below the limit one by one, and the
tracker holds those of the last hour. -/
structure VelocityInvariant (n : ℕ) (clock : ℤ) (state : MeteredState) : Prop where
  limit : state.policy.activePolicy.velocityLimitPerHour = n
  past : ∀ d, ∀ t ∈ state.allowedTimes d, t ≤ clock
  covered : ∀ d, ∀ b ≥ clock - hour, (state.allowedTimes d).countP (fun t => b < t) ≤
    (trackedTimes state.policy.velocityTracker d).countP fun t => b < t
  limited : ∀ d, Limited hour n (state.allowedTimes d)

theorem velocityInvariant_start {n : ℕ} {policy : PolicyState}
    (hlimit : policy.activePolicy.velocityLimitPerHour = n) (clock : ℤ) :
    VelocityInvariant n clock ⟨policy, []⟩ := by
  refine ⟨hlimit, ?_, ?_, ?_⟩
  · simp [MeteredState.allowedTimes]
  · simp [MeteredState.allowedTimes]
  · exact fun _ => .nil

theorem VelocityInvariant.later {n : ℕ} {clock clock' : ℤ} {state : MeteredState}
    (h : VelocityInvariant n clock state) (hclock : clock ≤ clock') :
    VelocityInvariant n clock' state :=
  ⟨h.limit, fun d t ht => (h.past d t ht).trans hclock,
    fun d b hb => h.covered d b (le_trans (by omega) hb), h.limited⟩

/-- The tracker after an evaluation, in the hour before the last reading of the clock. -/
theorem countP_trackerAfter {state : PolicyState} {toAddress d : JSString} {now b : ℤ}
    {cleanup : Option ℤ} (hnow : now - hour ≤ b) (hcleanup : ∀ time ∈ cleanup, time - hour ≤ b) :
    (trackedTimes (trackerAfter state toAddress now cleanup) d).countP (fun t => b < t) =
      (trackedTimes state.velocityTracker d).countP (fun t => b < t) +
        if d = toAddress ∧ b < now then 1 else 0 := by
  have hwindow : ∀ (time : ℤ) (times : List ℤ), time - hour ≤ b →
      (times.filter fun t => time - hour < t).countP (fun t => b < t) =
        times.countP fun t => b < t := by
    intro time times htime
    rw [List.countP_filter]
    refine List.countP_congr fun t _ => ?_
    simp only [Bool.and_eq_true, decide_eq_true_eq, and_iff_left_iff_imp]
    exact htime.trans_lt
  have hset : (trackedTimes (state.velocityTracker.set toAddress
      (recentTxs state toAddress now ++ [now])) d).countP (fun t => b < t) =
      (trackedTimes state.velocityTracker d).countP (fun t => b < t) +
        if d = toAddress ∧ b < now then 1 else 0 := by
    rw [trackedTimes_set]
    by_cases hd : d = toAddress
    · subst hd
      have hrecent := hwindow now (trackedTimes state.velocityTracker d) hnow
      rw [if_pos rfl, List.countP_append, recentTxs, ← trackedTimes, hrecent]
      simp [List.countP_singleton]
    · simp [hd]
  unfold trackerAfter
  cases cleanup with
  | none => exact hset
  | some time =>
    dsimp only
    rw [trackedTimes_cleanup, hwindow time _ (hcleanup time rfl), hset]

variable (platform) in
theorem allowedTimes_step (state : MeteredState) (call : PolicyCall) (d : JSString) :
    (meteredStep platform state call).allowedTimes d = state.allowedTimes d ∨
      d = call.toAddress ∧
        (meteredStep platform state call).allowedTimes d = state.allowedTimes d ++ [call.now] ∧
        ∃ result, (evaluatePolicy platform state.policy call.toAddress call.amountUSD
          call.simulation call.now call.cleanup).2 = .ok result ∧ result.allowed = true := by
  unfold meteredStep MeteredState.allowedTimes
  dsimp only
  split
  next result hresult =>
    split
    next hallowed =>
      by_cases hd : d = call.toAddress
      · refine Or.inr ⟨hd, ?_, result, hresult, hallowed⟩
        simp [List.filter_append, hd]
      · refine Or.inl ?_
        simp [List.filter_append, Ne.symm hd]
    · exact Or.inl rfl
  · exact Or.inl rfl

variable (platform) in
/-- **One evaluation** keeps the invariant, up to its last reading of the clock. -/
theorem velocityInvariant_step {n : ℕ} {clock last : ℤ} {state : MeteredState} {call : PolicyCall}
    (h : VelocityInvariant n clock state) (hnow : clock ≤ call.now) (hlast : call.now ≤ last)
    (hcleanup : ∀ time ∈ call.cleanup, time ≤ last) :
    VelocityInvariant n last (meteredStep platform state call) := by
  have hlater := h.later (hnow.trans hlast)
  rcases evaluatePolicy_tracks platform state.policy call.toAddress call.amountUSD
    call.simulation call.now call.cleanup with ⟨hsame, hrefused⟩ | htracked
  · have htimes : ∀ d, (meteredStep platform state call).allowedTimes d = state.allowedTimes d := by
      intro d
      rcases allowedTimes_step platform state call d with hkept |
        ⟨-, -, result, hresult, hallowed⟩
      · exact hkept
      · rw [hrefused result hresult] at hallowed
        cases hallowed
    refine ⟨?_, ?_, ?_, ?_⟩
    · rw [meteredStep, hsame]
      exact h.limit
    · intro d t ht
      rw [htimes] at ht
      exact hlater.past d t ht
    · intro d b hb
      rw [htimes, meteredStep, hsame]
      exact hlater.covered d b hb
    · intro d
      rw [htimes]
      exact h.limited d
  · have htracker : (meteredStep platform state call).policy.velocityTracker =
        trackerAfter state.policy call.toAddress call.now call.cleanup := by
      rw [meteredStep, htracked]
    refine ⟨?_, ?_, ?_, ?_⟩
    · rw [meteredStep, htracked]
      exact h.limit
    · intro d t ht
      rcases allowedTimes_step platform state call d with hkept | ⟨-, hnew, -⟩
      · exact hlater.past d t (hkept ▸ ht)
      · rw [hnew, List.mem_append, List.mem_singleton] at ht
        rcases ht with hold | rfl
        · exact hlater.past d t hold
        · exact hlast
    · intro d b hb
      have hcount := @countP_trackerAfter state.policy call.toAddress d call.now b call.cleanup
        (le_trans (by omega) hb) fun time htime => by
          have hle := hcleanup time htime
          omega
      have hold := hlater.covered d b hb
      rw [htracker, hcount]
      rcases allowedTimes_step platform state call d with hkept | ⟨hd, hnew, -⟩
      · rw [hkept]
        omega
      · rw [hnew, List.countP_append]
        simp only [List.countP_singleton, decide_eq_true_eq, hd, true_and] at hold ⊢
        omega
    · intro d
      rcases allowedTimes_step platform state call d with hkept |
        ⟨rfl, hnew, result, hresult, hallowed⟩
      · rw [hkept]
        exact h.limited d
      · rw [hnew]
        have hall := (evaluatePolicy_allowed_iff (Prod.ext rfl hresult)).mp hallowed
        have hrecent : (recentTxs state.policy call.toAddress call.now).length < n := by
          have hvelocity := hall.withinVelocity
          rw [h.limit] at hvelocity
          exact_mod_cast hvelocity
        have hcovered := h.covered call.toAddress (call.now - hour) (by omega)
        rw [List.countP_eq_length_filter (l := trackedTimes _ _)] at hcovered
        exact .concat (h.limited _) (fun t ht => (h.past _ t ht).trans hnow)
          (hcovered.trans_lt hrecent)

/-! ## Runs -/

/-- The readings of the clock do not go back. -/
def Chronological (calls : List PolicyCall) : Prop :=
  (calls.flatMap PolicyCall.readings).Pairwise (· ≤ ·)

variable (platform) in
theorem velocityInvariant_run {n : ℕ} {clock : ℤ} {state : MeteredState} {calls : List PolicyCall}
    (h : VelocityInvariant n clock state)
    (hclock : (clock :: calls.flatMap PolicyCall.readings).Pairwise (· ≤ ·)) :
    ∃ last, VelocityInvariant n last (run (meteredStep platform) state calls) := by
  induction calls generalizing clock state with
  | nil => exact ⟨clock, h⟩
  | cons call calls ih =>
    obtain ⟨hfirst, hrest⟩ := List.pairwise_cons.mp hclock
    rw [List.flatMap_cons, PolicyCall.readings] at hfirst hrest
    have hnow : clock ≤ call.now := hfirst call.now (by simp)
    cases hcleanup : call.cleanup with
    | none =>
      have hstep := velocityInvariant_step platform h hnow le_rfl (by simp [hcleanup])
      exact ih hstep (by simpa [hcleanup] using hrest)
    | some time =>
      rw [hcleanup] at hrest
      obtain ⟨hearlier, hlater⟩ := List.pairwise_cons.mp hrest
      have hle : call.now ≤ time := hearlier time (by simp)
      have hstep := velocityInvariant_step platform h hnow hle (by simp [hcleanup])
      exact ih hstep hlater

/-- **The velocity limit.** Of the evaluations of one destination, at most the limit is
allowed within any hour. -/
theorem velocity_bound {policy : PolicyState} {n : ℕ}
    (hlimit : policy.activePolicy.velocityLimitPerHour = n) {calls : List PolicyCall}
    (hclock : Chronological calls) (d : JSString) (T : ℤ) :
    ((run (meteredStep platform) ⟨policy, []⟩ calls).allowed.countP fun e =>
      e.1 = d ∧ T - hour < e.2 ∧ e.2 ≤ T) ≤ n := by
  obtain ⟨clock, hsorted⟩ : ∃ clock,
      (clock :: calls.flatMap PolicyCall.readings).Pairwise (· ≤ ·) := by
    cases calls with
    | nil => exact ⟨0, by simp⟩
    | cons call calls =>
      refine ⟨call.now, List.pairwise_cons.mpr ⟨fun t ht => ?_, hclock⟩⟩
      rw [Chronological, List.flatMap_cons, PolicyCall.readings, List.cons_append,
        List.pairwise_cons] at hclock
      rcases List.mem_cons.mp ht with rfl | hrest
      · exact le_rfl
      · exact hclock.1 t hrest
  obtain ⟨last, hinv⟩ :=
    velocityInvariant_run platform (velocityInvariant_start hlimit clock) hsorted
  have hwindow := (hinv.limited d).window_le T
  rw [MeteredState.allowedTimes, List.countP_map, List.countP_filter] at hwindow
  refine le_of_eq_of_le (List.countP_congr fun e _ => ?_) hwindow
  simp [and_comm]

/-- The default policy with one transaction an hour for each destination. -/
def oncePerHour : PolicyState :=
  ⟨{ defaultPolicy with velocityLimitPerHour := 1 }, .empty⟩

/-- A small amount to one address, and the tracker is cleaned. -/
def smallCall (now : ℤ) : PolicyCall where
  toAddress := js "bc1qar0srrr7xfkvy5l643lydnw9re59gtzzwf5mdq"
  amountUSD := 10
  simulation := none
  now
  cleanup := some now

theorem velocity_bound_once :
    ((run (meteredStep asciiPlatform) ⟨oncePerHour, []⟩
        [smallCall 0, smallCall 1000, smallCall (hour + 1000)]).allowed.countP fun e =>
      e.1 = (smallCall 0).toAddress ∧ 2000 - hour < e.2 ∧ e.2 ≤ 2000) ≤ 1 :=
  velocity_bound (by decide) (by unfold Chronological; decide) _ _

end BioFire.Policy
