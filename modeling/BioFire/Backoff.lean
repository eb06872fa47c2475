import BioFire.Disconnection

/-!
# The delay before a reconnection (`src/lib/network/transport.ts`)

`scheduleReconnect` keeps no count of the failures. It doubles the interval once a timer has ever
been named for the peer, and both the error and the close event of a socket call it.

* `step_delay`: the delay that an attempt is given, against its place among the failures;
* `onePending_step`, `not_pending_of_onePending`: the timers of a peer through one event;
* `exponential_backoff_iff`: in which runs the delays double and no timer is doubled.
-/

namespace BioFire.Transport

open Runs

variable (host : TransportHost) (config : TransportConfig)

/-! ## Attempts -/

/-- The url of a socket that `connect` opened and that never became open. -/
def attemptUrl (state : TransportState) (socket : ℕ) : Option JSString :=
  match state.sockets[socket]? with
  | some ⟨_, .connect peerUrl, _⟩ => some peerUrl
  | _ => none

/-- The attempt that the event reports as failed. -/
def failedAttempt (state : TransportState) : TransportEvent → Option (ℕ × JSString)
  | .failed socket _ => (attemptUrl state socket).map (socket, ·)
  | .closed socket =>
    if state.readyStateOf socket = some .CLOSED then none
    else (attemptUrl state socket).map (socket, ·)
  | _ => none

/-- The url of the attempt that succeeds with the event. -/
def succeededUrl (state : TransportState) : TransportEvent → Option JSString
  | .opened socket =>
    if state.readyStateOf socket = some .CONNECTING then attemptUrl state socket else none
  | _ => none

/-- The failures of each peer since its last success, and the place of each failed socket
among those of its peer. -/
structure FailureLog where
  failures : JSString → ℕ
  places : ℕ → Option ℕ

def newLog : FailureLog := ⟨fun _ => 0, fun _ => none⟩

/-- A socket that fails once more keeps its place. -/
def FailureLog.place (log : FailureLog) (socket : ℕ) (peerId : JSString) : ℕ :=
  (log.places socket).getD (log.failures peerId + 1)

def FailureLog.record (log : FailureLog) (state : TransportState) (event : TransportEvent) :
    FailureLog :=
  match failedAttempt state event, succeededUrl state event with
  | some (socket, peerUrl), _ =>
    let peerId := extractPeerIdFromUrl host peerUrl
    { failures := if (log.places socket).isSome then log.failures
        else Function.update log.failures peerId (log.failures peerId + 1)
      places := Function.update log.places socket (some (log.place socket peerId)) }
  | none, some peerUrl =>
    { log with failures := Function.update log.failures (extractPeerIdFromUrl host peerUrl) 0 }
  | none, none => log

/-- A transport, and the log of its failures. -/
abbrev Logged := TransportState × FailureLog

def loggedStep (logged : Logged) (event : TransportEvent) : Logged :=
  (step host config logged.1 event, logged.2.record host logged.1 event)

def newLogged : Logged := (newTransport, newLog)

/-! ## Delays -/

/-- `reconnectIntervalMs * 2 ** n` -/
def uncappedDelay (n : ℕ) : JSNumber :=
  (fun delay : JSNumber => delay.mulRat 2)^[n] config.reconnectIntervalMs

/-- The delay after the `n`-th failure in a row. -/
def backoffDelay (n : ℕ) : JSNumber :=
  mathMin (uncappedDelay config (n - 1)) config.reconnectMaxIntervalMs

/-- The timer that a failed attempt schedules has the delay of its place. -/
def DelayLaw (logged : Logged) (event : TransportEvent) : Prop :=
  ∀ socket peerUrl, failedAttempt logged.1 event = some (socket, peerUrl) →
    logged.1.isClosing = false →
    (step host config logged.1 event).timers[logged.1.timers.length]?.map (·.interval) =
      some (backoffDelay config (logged.2.place socket (extractPeerIdFromUrl host peerUrl)))

def OnePending (logged : Logged) : Prop :=
  ∀ peerId timer timer', PendingFor host logged.1 timer peerId →
    PendingFor host logged.1 timer' peerId → timer = timer'

/-- The place that `scheduleReconnect` reckons with: it knows a first failure from the others. -/
def knownPlace (state : TransportState) (peerId : JSString) : ℕ :=
  if state.reconnectTimers.has peerId then 2 else 1

/-- The delays of the two places are the same, or the maximum is below both. -/
def SameDelay (n k : ℕ) : Prop :=
  uncappedDelay config (n - 1) = uncappedDelay config (k - 1) ∨
    config.reconnectMaxIntervalMs = .nan ∨
    config.reconnectMaxIntervalMs.le (uncappedDelay config (n - 1)) = true ∧
      config.reconnectMaxIntervalMs.le (uncappedDelay config (k - 1)) = true

/-- The event schedules no second timer, and fails no attempt at a place that
`scheduleReconnect` takes for one with another delay. -/
def KeepsBackoff (logged : Logged) (event : TransportEvent) : Prop :=
  (∀ peerId, Schedules host logged.1 event peerId →
    ∀ timer, ¬ PendingFor host logged.1 timer peerId) ∧
  ∀ socket peerUrl, failedAttempt logged.1 event = some (socket, peerUrl) →
    logged.1.isClosing = false →
    SameDelay config (logged.2.place socket (extractPeerIdFromUrl host peerUrl))
      (knownPlace logged.1 (extractPeerIdFromUrl host peerUrl))

variable {host config}

theorem mathMin_cases {max : JSNumber} (hmax : max ≠ .nan) (x : JSNumber) :
    mathMin x max = x ∧ ¬ max.le x = true ∨ mathMin x max = max ∧ max.le x = true := by
  unfold mathMin
  by_cases hx : x = .nan
  · subst hx
    refine Or.inl ⟨if_pos (Or.inl rfl), ?_⟩
    cases max <;> simp_all [JSNumber.le, JSNumber.lt]
  · rw [if_neg (not_or.mpr ⟨hx, hmax⟩)]
    by_cases hle : max.le x = true
    · refine Or.inr ⟨?_, hle⟩
      split
      next hle' => exact JSNumber.le_antisymm hle' hle
      next => rfl
    · exact Or.inl ⟨if_pos (JSNumber.le_of_not_le hmax hx hle), hle⟩

/-- Where two numbers are the same once they are capped. -/
theorem mathMin_eq_iff (x y max : JSNumber) : mathMin x max = mathMin y max ↔
    x = y ∨ max = .nan ∨ max.le x = true ∧ max.le y = true := by
  by_cases hmax : max = .nan
  · simp [mathMin, hmax]
  have hself : max.le max = true := JSNumber.le_iff.mpr (Or.inr ⟨rfl, hmax⟩)
  rcases mathMin_cases hmax x with ⟨hx, hxle⟩ | ⟨hx, hxle⟩ <;>
    rcases mathMin_cases hmax y with ⟨hy, hyle⟩ | ⟨hy, hyle⟩ <;> rw [hx, hy]
  · simp [hmax, hxle]
  · refine iff_of_false ?_ ?_
    · rintro rfl
      exact hxle hself
    · rintro (rfl | h | ⟨h, -⟩)
      · exact hxle hyle
      · exact hmax h
      · exact hxle h
  · refine iff_of_false ?_ ?_
    · rintro rfl
      exact hyle hself
    · rintro (rfl | h | ⟨-, h⟩)
      · exact hyle hxle
      · exact hmax h
      · exact hyle h
  · simp [hxle, hyle]

/-! ## One event -/

theorem attemptUrl_eq_some_iff {state : TransportState} {socket : ℕ} {peerUrl : JSString} :
    attemptUrl state socket = some peerUrl ↔
      ∃ s, state.sockets[socket]? = some s ∧ s.handlers = .connect peerUrl := by
  unfold attemptUrl
  split
  next hs => simp [hs]
  next hs =>
    refine ⟨nofun, ?_⟩
    rintro ⟨⟨peerId, handlers, readyState⟩, h, rfl⟩
    exact absurd h (hs peerId peerUrl readyState)

/-- A failed attempt is an error or a close event of a socket with the handlers of `connect`. -/
theorem socket_of_failedAttempt {state : TransportState} {event : TransportEvent} {socket : ℕ}
    {peerUrl : JSString} (h : failedAttempt state event = some (socket, peerUrl)) :
    ∃ s, state.sockets[socket]? = some s ∧ s.handlers = .connect peerUrl ∧
      ((∃ listened, event = .failed socket listened) ∨
        event = .closed socket ∧ s.readyState ≠ .CLOSED) := by
  cases event with
  | failed socket' listened =>
    obtain ⟨peerUrl', hurl, heq⟩ := Option.map_eq_some_iff.mp h
    cases heq
    obtain ⟨s, hs, hhandlers⟩ := attemptUrl_eq_some_iff.mp hurl
    exact ⟨s, hs, hhandlers, Or.inl ⟨listened, rfl⟩⟩
  | closed socket' =>
    rw [failedAttempt] at h
    split at h
    · cases h
    next hopen =>
      obtain ⟨peerUrl', hurl, heq⟩ := Option.map_eq_some_iff.mp h
      cases heq
      obtain ⟨s, hs, hhandlers⟩ := attemptUrl_eq_some_iff.mp hurl
      refine ⟨s, hs, hhandlers, Or.inr ⟨rfl, ?_⟩⟩
      intro hclosed
      exact hopen (by rw [TransportState.readyStateOf, hs, Option.map_some, hclosed])
  | _ => cases h

variable (host config) in
/-- **The delay of one attempt.** The timer that the attempt schedules has the delay of the place
that `scheduleReconnect` reckons with. -/
theorem step_delay {state : TransportState} {event : TransportEvent} {socket : ℕ}
    {peerUrl : JSString} (h : failedAttempt state event = some (socket, peerUrl))
    (hopen : state.isClosing = false) :
    (step host config state event).timers[state.timers.length]?.map (·.interval) =
      some (backoffDelay config (knownPlace state (extractPeerIdFromUrl host peerUrl))) := by
  obtain ⟨s, hs, hhandlers, hevent⟩ := socket_of_failedAttempt h
  have htimers := (runsHandlers_of_event host config hs hevent).timers_eq
  rw [hhandlers] at htimers
  have hlast : (scheduleReconnect host config state peerUrl).timers =
      state.timers ++ [⟨peerUrl, backoffDelay config
        (knownPlace state (extractPeerIdFromUrl host peerUrl)), true⟩] := by
    by_cases hnamed : state.reconnectTimers.has (extractPeerIdFromUrl host peerUrl) = true
    · simp [scheduleReconnect, knownPlace, backoffDelay, uncappedDelay, hopen, hnamed]
    · simp [scheduleReconnect, knownPlace, backoffDelay, uncappedDelay, hopen, hnamed]
  rw [htimers, Handlers.peerUrl, Option.elim_some, hlast, List.getElem?_concat_length]
  rfl

theorem delayLaw_iff (logged : Logged) (event : TransportEvent) :
    DelayLaw host config logged event ↔
      ∀ socket peerUrl, failedAttempt logged.1 event = some (socket, peerUrl) →
        logged.1.isClosing = false →
        SameDelay config (logged.2.place socket (extractPeerIdFromUrl host peerUrl))
          (knownPlace logged.1 (extractPeerIdFromUrl host peerUrl)) := by
  refine forall₂_congr fun socket peerUrl => forall₂_congr fun hfailed hopen => ?_
  rw [step_delay host config hfailed hopen, Option.some.injEq, eq_comm]
  exact mathMin_eq_iff _ _ _

/-- A timer that is scheduled is the second one of its peer, when another is pending. -/
theorem not_pending_of_onePending {logged : Logged} {event : TransportEvent}
    (h : OnePending host (loggedStep host config logged event)) (peerId : JSString)
    (hschedules : Schedules host logged.1 event peerId) (timer : ℕ) :
    ¬ PendingFor host logged.1 timer peerId := by
  intro hpending
  have hnew := (reconnects_of_schedules host config hschedules).2
  obtain ⟨hopen, socket, s, peerUrl, hs, hpeerUrl, hpeer, hevent⟩ := hschedules
  have hruns := runsHandlers_of_event host config hs hevent
  have hold := (hruns.pendingFor_iff hopen timer peerId).mpr (Or.inl hpending)
  have heq := h peerId timer logged.1.timers.length hold hnew
  obtain ⟨t, ht, -⟩ := hpending
  have hlt := (List.getElem?_eq_some_iff.mp ht).1
  omega

theorem keepsTimers_of_isClosing {state state' : TransportState} {handlers : Handlers}
    (h : RunsHandlers host config state state' handlers) (hclosing : state.isClosing = true) :
    KeepsTimers host state state' := by
  refine .of_eq h.isClosing_eq (h.timers_eq.trans ?_)
  cases handlers.peerUrl with
  | none => rfl
  | some peerUrl => simp [scheduleReconnect, hclosing]

/-- An event that schedules no second timer leaves at most one. -/
theorem onePending_step {logged : Logged} (h : OnePending host logged) {event : TransportEvent}
    (hkeeps : ∀ peerId, Schedules host logged.1 event peerId →
      ∀ timer, ¬ PendingFor host logged.1 timer peerId) :
    OnePending host (loggedStep host config logged event) := by
  have hkept : KeepsTimers host logged.1 (step host config logged.1 event) →
      OnePending host (loggedStep host config logged event) := by
    intro hold peerId timer timer' hpending hpending'
    exact h peerId timer timer' (hold.2 timer peerId hpending) (hold.2 timer' peerId hpending')
  rcases step_timers host config logged.1 event with hold | ⟨socket, s, hs, hevent, hruns⟩
  · exact hkept hold
  cases hopen : logged.1.isClosing with
  | true => exact hkept (keepsTimers_of_isClosing hruns hopen)
  | false =>
    have hschedules : ∀ {peerId : JSString}, (∃ peerUrl, s.handlers.peerUrl = some peerUrl ∧
        extractPeerIdFromUrl host peerUrl = peerId) → Schedules host logged.1 event peerId := by
      rintro peerId ⟨peerUrl, hpeerUrl, hpeer⟩
      exact ⟨hopen, socket, s, peerUrl, hs, hpeerUrl, hpeer, hevent⟩
    intro peerId timer timer' hpending hpending'
    rcases (hruns.pendingFor_iff hopen timer peerId).mp hpending with hold | ⟨rfl, hnew⟩
    · rcases (hruns.pendingFor_iff hopen timer' peerId).mp hpending' with hold' | ⟨-, hnew'⟩
      · exact h peerId timer timer' hold hold'
      · exact absurd hold (hkeeps peerId (hschedules hnew') timer)
    · rcases (hruns.pendingFor_iff hopen timer' peerId).mp hpending' with hold' | ⟨rfl, -⟩
      · exact absurd hold' (hkeeps peerId (hschedules hnew) timer')
      · rfl

/-! ## Runs -/

/-- **Exponential backoff.** The delays double and no peer has two timers exactly in the runs in
which no handler schedules a timer while another one of the peer is pending, and every attempt
that fails is, up to the maximum, the first for a peer that had no timer and the second for the
others. -/
theorem exponential_backoff_iff (host : TransportHost) (config : TransportConfig)
    (events : List TransportEvent) :
    (Always (loggedStep host config) newLogged events (DelayLaw host config) ∧
      Throughout (loggedStep host config) newLogged events (OnePending host)) ↔
      Always (loggedStep host config) newLogged events (KeepsBackoff host config) := by
  constructor
  · rintro ⟨hdelays, hpending⟩ past event rest hcut
    refine ⟨?_, (delayLaw_iff _ event).mp (hdelays past event rest hcut)⟩
    have hafter := hpending (past ++ [event]) rest (by rw [hcut]; simp)
    rw [run_concat] at hafter
    exact not_pending_of_onePending hafter
  · intro h
    refine ⟨fun past event rest hcut => ?_, ?_⟩
    · exact (delayLaw_iff _ event).mpr (h past event rest hcut).2
    · refine throughout_induction (OnePending host) ?_ ?_ h
      · rintro peerId timer timer' ⟨t, ht, -⟩
        cases ht
      · exact fun logged event hone hkeeps => onePending_step hone hkeeps.1

/-- A connection that is refused: the socket raises its error, and then it closes. -/
def refusedEvents : List TransportEvent := [.connect (js "wss://alice"), .failed 0 true, .closed 0]

/-- The one failed attempt leaves two timers, the second of them with the delay of a second
failure. -/
theorem refused_connection_schedules_twice :
    ¬ Throughout (loggedStep sampleHost (defaultConfig (js "bob"))) newLogged refusedEvents
        (OnePending sampleHost) ∧
      ¬ Always (loggedStep sampleHost (defaultConfig (js "bob"))) newLogged refusedEvents
        (DelayLaw sampleHost (defaultConfig (js "bob"))) := by
  constructor
  · intro h
    have hone := h refusedEvents [] (List.append_nil _).symm (js "wss://alice") 0 1
      ⟨⟨js "wss://alice", .finite 1000, true⟩, by decide, rfl, rfl⟩
      ⟨⟨js "wss://alice", .finite 2000, true⟩, by with_unfolding_all decide, rfl, rfl⟩
    exact absurd hone (by decide)
  · intro h
    have hdelay := h [.connect (js "wss://alice"), .failed 0 true] (.closed 0) [] rfl 0
      (js "wss://alice") (by decide) (by decide)
    revert hdelay
    with_unfolding_all decide

end BioFire.Transport
