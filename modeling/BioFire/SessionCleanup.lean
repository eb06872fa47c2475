import BioFire.RequestTokens

/-!
# Cleanups of the sessions (`src/lib/security/session_guard.ts`)

Two runs of the guard, one of them with more calls of `cleanupExpiredSessions`. What is cleaned
away is expired for every later call, when the clock does not go back.

* `swept_run`: the sessions of the two runs;
* `cleanup_unobservable`: no later call tells the runs apart.
-/

namespace BioFire.SessionGuard

open Runs

/-! ## Two runs -/

variable {Key : Type} (oracles : GuardOracles Key)

/-- The calls of the guard; the validation of a request changes no session. -/
inductive SessionCall where
  | guard (event : GuardEvent)
  | validateRequestAuthTokens (authHeader cookieHeader sessionId : Option JSString) (now : ℤ)

def callStep (state : GuardState) : SessionCall → GuardState
  | .guard event => step state event
  | .validateRequestAuthTokens _ _ _ _ => state

/-- The time that a call reads. -/
def SessionCall.time : SessionCall → Option ℤ
  | guard (.createSessionBinding _ _ _ now) => some now
  | guard (.wrapShareWithSessionTokens _ _ _ _ _) => none
  | guard (.unwrapShareWithSessionTokens _ _ _ _ now) => some now
  | guard (.revokeSession _) => none
  | guard (.cleanupExpiredSessions now) => some now
  | validateRequestAuthTokens _ _ _ now => some now

/-- What is observed of a call: what a creation and an unwrap return, and `isValid`. -/
inductive SessionOutcome where
  | created (binding : SessionBindingTokens)
  | unwrapped (result : Except JSError Bytes)
  | validated (isValid : Bool)

def outcome (state : GuardState) : SessionCall → Option SessionOutcome
  | .guard (.createSessionBinding sessionId rawJwt rawCookie now) =>
    some (.created (createSessionBinding state sessionId rawJwt rawCookie now).2)
  | .guard (.unwrapShareWithSessionTokens boundShare jwtToken cookieFingerprint sessionId now) =>
    some (.unwrapped (unwrapShareWithSessionTokens oracles state boundShare jwtToken
      cookieFingerprint sessionId now))
  | .validateRequestAuthTokens authHeader cookieHeader sessionId now =>
    some (.validated (validateRequestAuthTokens state authHeader cookieHeader sessionId
      now).isValid)
  | _ => none

/-- The second list has the calls of the first, and cleanups at any points. -/
inductive CleanupsInserted : List SessionCall → List SessionCall → Prop
  | nil : CleanupsInserted [] []
  | call {calls calls' : List SessionCall} (h : CleanupsInserted calls calls')
      (call : SessionCall) : CleanupsInserted (calls ++ [call]) (calls' ++ [call])
  | cleanup {calls calls' : List SessionCall} (h : CleanupsInserted calls calls') (now : ℤ) :
      CleanupsInserted calls (calls' ++ [.guard (.cleanupExpiredSessions now)])

/-- The clock does not go back. -/
def ClockForward (calls : List SessionCall) : Prop :=
  (calls.filterMap SessionCall.time).Pairwise (· ≤ ·)

/-- The sessions that are gone in the second state were expired at one of the times. -/
structure Swept (times : List ℤ) (state state' : GuardState) : Prop where
  issued : state'.issued = state.issued
  sessions : ∀ sessionId,
    state'.activeSessions.get sessionId = state.activeSessions.get sessionId ∨
      state'.activeSessions.get sessionId = none ∧
        ∃ session, state.activeSessions.get sessionId = some session ∧
          ∃ time ∈ times, session.expiresAt < time

theorem Swept.mono {times times' : List ℤ} {state state' : GuardState}
    (h : Swept times state state') (hsub : times ⊆ times') : Swept times' state state' := by
  refine ⟨h.issued, fun sessionId => (h.sessions sessionId).imp_right ?_⟩
  rintro ⟨hgone, session, hget, time, htime, hexpired⟩
  exact ⟨hgone, session, hget, time, hsub htime, hexpired⟩

/-- At a later time the two states have the same sessions that are not expired. -/
theorem Swept.filter_eq {times : List ℤ} {state state' : GuardState} (h : Swept times state state')
    {now : ℤ} (hnow : ∀ time ∈ times, time ≤ now) (sessionId : JSString) :
    (state'.activeSessions.get sessionId).filter (fun s => !(s.expiresAt < now)) =
      (state.activeSessions.get sessionId).filter fun s => !(s.expiresAt < now) := by
  rcases h.sessions sessionId with heq | ⟨hgone, session, hget, time, htime, hexpired⟩
  · rw [heq]
  · have hlate : session.expiresAt < now := hexpired.trans_le (hnow time htime)
    rw [hgone, hget, Option.filter_some, if_neg (by simp [hlate])]
    rfl

theorem Swept.step {times : List ℤ} {state state' : GuardState} (h : Swept times state state')
    (call : SessionCall) (hnow : ∀ now ∈ call.time, ∀ time ∈ times, time ≤ now) :
    Swept times (callStep state call) (callStep state' call) := by
  cases call with
  | validateRequestAuthTokens => exact h
  | guard event =>
    cases event with
    | createSessionBinding sessionId rawJwt rawCookie now =>
      refine ⟨?_, fun sessionId' => ?_⟩
      · simp [callStep, SessionGuard.step, createSessionBinding, h.issued]
      · simp only [callStep, SessionGuard.step, createSessionBinding, InsertionMap.get_set]
        split
        · exact Or.inl rfl
        · exact h.sessions sessionId'
    | wrapShareWithSessionTokens => exact h
    | unwrapShareWithSessionTokens => exact h
    | revokeSession sessionId =>
      refine ⟨h.issued, fun sessionId' => ?_⟩
      simp only [callStep, SessionGuard.step, revokeSession, InsertionMap.get_delete]
      split
      · exact Or.inl rfl
      · exact h.sessions sessionId'
    | cleanupExpiredSessions now =>
      refine ⟨h.issued, fun sessionId => Or.inl ?_⟩
      exact ((cleanup_eq state' now).1 sessionId).trans
        ((h.filter_eq (hnow now rfl) sessionId).trans ((cleanup_eq state now).1 sessionId).symm)

theorem Swept.cleanup {times : List ℤ} {state state' : GuardState} (h : Swept times state state')
    (now : ℤ) :
    Swept (times ++ [now]) state (cleanupExpiredSessions state' now).1 := by
  refine ⟨h.issued, fun sessionId => ?_⟩
  rw [(cleanup_eq state' now).1]
  rcases h.sessions sessionId with heq | ⟨hgone, session, hget, time, htime, hexpired⟩
  · rw [heq]
    cases hget : state.activeSessions.get sessionId with
    | none => exact Or.inl rfl
    | some session =>
      by_cases hexpired : session.expiresAt < now
      · exact Or.inr ⟨by simp [hexpired], session, rfl, now, by simp, hexpired⟩
      · exact Or.inl (by simp [not_lt.mp hexpired])
  · refine Or.inr ⟨by rw [hgone]; rfl, session, hget, time, ?_, hexpired⟩
    exact List.mem_append_left _ htime

theorem ClockForward.le {calls : List SessionCall} {call : SessionCall}
    (h : ClockForward (calls ++ [call])) {now : ℤ} (hnow : now ∈ call.time) :
    ∀ time ∈ calls.filterMap SessionCall.time, time ≤ now := by
  rw [ClockForward, List.filterMap_append, List.pairwise_append] at h
  intro time htime
  exact h.2.2 time htime now (by simp [Option.mem_def.mp hnow])

theorem ClockForward.left {calls calls' : List SessionCall} (h : ClockForward (calls ++ calls')) :
    ClockForward calls := by
  rw [ClockForward, List.filterMap_append, List.pairwise_append] at h
  exact h.1

/-- **The sessions of the two runs.** -/
theorem swept_run {calls calls' : List SessionCall} (h : CleanupsInserted calls calls')
    (hclock : ClockForward calls') :
    Swept (calls'.filterMap SessionCall.time) (run callStep newGuard calls)
      (run callStep newGuard calls') := by
  induction h with
  | nil => exact ⟨rfl, fun _ => Or.inl rfl⟩
  | call h call ih =>
    rw [run_concat, run_concat, List.filterMap_append]
    exact ((ih hclock.left).step call fun now hnow => hclock.le hnow).mono
      (List.subset_append_left _ _)
  | cleanup h now ih =>
    rw [run_concat, List.filterMap_append]
    exact (ih hclock.left).cleanup now

theorem Swept.sessionMatches_iff {times : List ℤ} {state state' : GuardState}
    (h : Swept times state state') {now : ℤ} (hnow : ∀ time ∈ times, time ≤ now)
    (sessionId jwtToken cookieFingerprint : JSString) :
    SessionMatches state' sessionId jwtToken cookieFingerprint now ↔
      SessionMatches state sessionId jwtToken cookieFingerprint now := by
  rcases h.sessions sessionId with heq | ⟨hgone, session, hget, time, htime, hexpired⟩
  · rw [SessionMatches, SessionMatches, heq]
  · have hlate : session.expiresAt < now := hexpired.trans_le (hnow time htime)
    simp [SessionMatches, hgone, hget, hlate]

theorem Swept.outcome_eq {times : List ℤ} {state state' : GuardState}
    (h : Swept times state state') {call : SessionCall}
    (hnow : ∀ now ∈ call.time, ∀ time ∈ times, time ≤ now) :
    outcome oracles state' call = outcome oracles state call := by
  cases call with
  | validateRequestAuthTokens authHeader cookieHeader sessionId now =>
    have hvalid : (validateRequestAuthTokens state' authHeader cookieHeader sessionId
        now).isValid = (validateRequestAuthTokens state authHeader cookieHeader sessionId
          now).isValid := by
      rw [Bool.eq_iff_iff, validate_iff, validate_iff, h.sessionMatches_iff (hnow now rfl)]
    simp only [outcome, hvalid]
  | guard event =>
    cases event with
    | createSessionBinding => rfl
    | wrapShareWithSessionTokens => rfl
    | unwrapShareWithSessionTokens boundShare jwtToken cookieFingerprint sessionId now =>
      simp only [outcome, unwrapShareWithSessionTokens, h.filter_eq (hnow now rfl)]
    | revokeSession => rfl
    | cleanupExpiredSessions => rfl

/-- **Cleanups are not observed.** With cleanups inserted into the calls before, and a clock
that does not go back, a later creation, unwrap or validation comes out the same; and every
cleanup returns the number of the sessions that are expired. -/
theorem cleanup_unobservable {calls calls' : List SessionCall}
    (h : CleanupsInserted calls calls') {call : SessionCall}
    (hclock : ClockForward (calls' ++ [call])) :
    outcome oracles (run callStep newGuard calls') call =
        outcome oracles (run callStep newGuard calls) call ∧
      ∀ now, (cleanupExpiredSessions (run callStep newGuard calls') now).2 =
        ((run callStep newGuard calls').activeSessions.values.filter
          fun s => s.expiresAt < now).length :=
  ⟨(swept_run h hclock.left).outcome_eq oracles fun _ hnow => hclock.le hnow,
    fun now => (cleanup_eq _ now).2⟩

/-- A session, and a cleanup when it is expired. -/
def expiredCalls : List SessionCall :=
  [.guard (.createSessionBinding (js "session") zeroDigest zeroDigest 0),
    .guard (.cleanupExpiredSessions (SESSION_TTL_MS + 1))]

/-- A later unwrap does not tell whether the session was cleaned away. -/
theorem cleanup_unobservable_sample :
    outcome sampleOracles (run callStep newGuard expiredCalls)
        (.guard (.unwrapShareWithSessionTokens sampleBoundShare sampleBinding.jwtToken
          sampleBinding.cookieFingerprint (js "session") (SESSION_TTL_MS + 1))) =
      outcome sampleOracles (run callStep newGuard (expiredCalls.take 1))
        (.guard (.unwrapShareWithSessionTokens sampleBoundShare sampleBinding.jwtToken
          sampleBinding.cookieFingerprint (js "session") (SESSION_TTL_MS + 1))) ∧
      ∀ now, (cleanupExpiredSessions (run callStep newGuard expiredCalls) now).2 =
        ((run callStep newGuard expiredCalls).activeSessions.values.filter
          fun s => s.expiresAt < now).length :=
  cleanup_unobservable sampleOracles ((CleanupsInserted.nil.call _).cleanup _)
    (by simp [ClockForward, SessionCall.time, SESSION_TTL_MS])

end BioFire.SessionGuard
