import BioFire.Transport

/-!
# Reconnection after `disconnect` (`src/lib/network/transport.ts`)

`disconnect` closes the socket of a peer and clears the timer that `reconnectTimers` names for
it. The close event comes later, and its handler schedules a reconnection.

* `scheduleReconnect_adds`, `disconnect_pending`, `step_timers`: the timers of a peer through
  one event;
* `disconnect_durable_iff`: in which histories a peer stays disconnected.
-/

namespace BioFire.Transport

open Runs

variable (host : TransportHost) (config : TransportConfig)

/-- A timer of the peer that has neither ended nor been cleared. -/
def PendingFor (state : TransportState) (timer : ℕ) (peerId : JSString) : Prop :=
  ∃ t, state.timers[timer]? = some t ∧ t.pending = true ∧
    extractPeerIdFromUrl host t.peerUrl = peerId

/-- At its end the timer calls `connect` for the peer, which a closing transport refuses. -/
def Reconnects (state : TransportState) (timer : ℕ) (peerId : JSString) : Prop :=
  state.isClosing = false ∧ PendingFor host state timer peerId

/-- `disconnect` was called for the peer, and `connect` has not been called for it since. -/
def Disconnected (past : List TransportEvent) (peerId : JSString) : Prop :=
  ∃ before after, past = before ++ .disconnect peerId :: after ∧
    ∀ peerUrl, .connect peerUrl ∈ after → extractPeerIdFromUrl host peerUrl ≠ peerId

/-- At no time after a `disconnect` would a timer reconnect to the peer. -/
def DisconnectDurable (events : List TransportEvent) : Prop :=
  ∀ past rest, events = past ++ rest → ∀ peerId, Disconnected host past peerId →
    ∀ timer, ¬ Reconnects host (run (step host config) newTransport past) timer peerId

/-- The url of a socket that `connect` opened. -/
def Handlers.peerUrl : Handlers → Option JSString
  | .setupClient => none
  | .connect peerUrl | .both peerUrl => some peerUrl

/-- `scheduleReconnect` is called for the peer, by the handlers of `connect`. -/
def Schedules (state : TransportState) (event : TransportEvent) (peerId : JSString) : Prop :=
  state.isClosing = false ∧ ∃ socket s peerUrl, state.sockets[socket]? = some s ∧
    s.handlers.peerUrl = some peerUrl ∧ extractPeerIdFromUrl host peerUrl = peerId ∧
    ((∃ listened, event = .failed socket listened) ∨
      event = .closed socket ∧ s.readyState ≠ .CLOSED)

/-- The event meets no timer that it would miss, and no peer that is disconnected. -/
def LeavesDisconnected (past : List TransportEvent) (event : TransportEvent) : Prop :=
  let state := run (step host config) newTransport past
  (∀ peerId, event = .disconnect peerId → ∀ timer, Reconnects host state timer peerId →
    state.reconnectTimers.get peerId = some timer) ∧
  ∀ peerId, Disconnected host past peerId → ¬ Schedules host state event peerId

/-! ## Disconnected peers -/

variable {host config}

theorem disconnected_concat_iff {past : List TransportEvent} {event : TransportEvent}
    {peerId : JSString} : Disconnected host (past ++ [event]) peerId ↔
      event = .disconnect peerId ∨ Disconnected host past peerId ∧
        ∀ peerUrl, event = .connect peerUrl → extractPeerIdFromUrl host peerUrl ≠ peerId := by
  constructor
  · rintro ⟨before, after, hcut, hafter⟩
    rcases concat_eq_iff.mp hcut with ⟨-, -, hevent⟩ | ⟨rest, rfl, hpast⟩
    · exact Or.inl hevent.symm
    · refine Or.inr ⟨⟨before, rest, hpast, ?_⟩, ?_⟩
      · intro peerUrl hmem
        exact hafter peerUrl (List.mem_append_left _ hmem)
      · rintro peerUrl rfl
        exact hafter peerUrl (List.mem_append_right _ (List.mem_singleton_self _))
  · rintro (rfl | ⟨⟨before, after, rfl, hafter⟩, hevent⟩)
    · exact ⟨past, [], rfl, by simp⟩
    · refine ⟨before, after ++ [event], by simp, ?_⟩
      intro peerUrl hmem
      rcases List.mem_append.mp hmem with hmem | hlast
      · exact hafter peerUrl hmem
      · exact hevent peerUrl (List.mem_singleton.mp hlast).symm

/-! ## The timers of a peer -/

/-- No timer of the peer is new. -/
def KeepsTimers (host : TransportHost) (state state' : TransportState) : Prop :=
  (state'.isClosing = false → state.isClosing = false) ∧
    ∀ timer peerId, PendingFor host state' timer peerId → PendingFor host state timer peerId

theorem KeepsTimers.of_eq {state state' : TransportState}
    (hclosing : state'.isClosing = state.isClosing) (htimers : state'.timers = state.timers) :
    KeepsTimers host state state' := by
  refine ⟨fun h => hclosing ▸ h, ?_⟩
  rintro timer peerId ⟨t, ht, hpending, hpeer⟩
  exact ⟨t, htimers ▸ ht, hpending, hpeer⟩

theorem KeepsTimers.refl (state : TransportState) : KeepsTimers host state state := .of_eq rfl rfl

theorem KeepsTimers.trans {state state' state'' : TransportState}
    (h : KeepsTimers host state state') (h' : KeepsTimers host state' state'') :
    KeepsTimers host state state'' :=
  ⟨fun hclosing => h.1 (h'.1 hclosing), fun timer peerId hpending =>
    h.2 timer peerId (h'.2 timer peerId hpending)⟩

theorem pendingFor_clearTimeout {state : TransportState} {cleared timer : ℕ} {peerId : JSString} :
    PendingFor host (clearTimeout state cleared) timer peerId ↔
      PendingFor host state timer peerId ∧ timer ≠ cleared := by
  unfold PendingFor clearTimeout
  by_cases heq : cleared = timer
  · subst heq
    rw [List.getElem?_modify_eq]
    constructor
    · rintro ⟨t, ht, hpending, -⟩
      obtain ⟨t', -, rfl⟩ := Option.map_eq_some_iff.mp ht
      cases hpending
    · rintro ⟨-, hne⟩
      exact absurd rfl hne
  · rw [List.getElem?_modify_ne _ _ heq]
    simp [Ne.symm heq]

theorem keepsTimers_clearTimeout (state : TransportState) (timer : ℕ) :
    KeepsTimers host state (clearTimeout state timer) :=
  ⟨fun h => h, fun _ _ h => (pendingFor_clearTimeout.mp h).1⟩

theorem beginClosing_frame (state : TransportState) (socket : ℕ) :
    (beginClosing state socket).isClosing = state.isClosing ∧
      (beginClosing state socket).timers = state.timers ∧
      (beginClosing state socket).reconnectTimers = state.reconnectTimers := by
  unfold beginClosing
  split <;> exact ⟨rfl, rfl, rfl⟩

theorem onClientError_frame (state : TransportState) (socket : ℕ) (listened : Bool) :
    (onClientError state socket listened).isClosing = state.isClosing ∧
      (onClientError state socket listened).timers = state.timers := by
  obtain ⟨hclosing, htimers, -⟩ := beginClosing_frame state socket
  unfold onClientError
  split
  · exact ⟨hclosing, htimers⟩
  · exact ⟨rfl, rfl⟩

theorem keepsTimers_connect (state : TransportState) (peerUrl : JSString) :
    KeepsTimers host state ((connect host config state peerUrl).toOption.getD state) := by
  rcases connect_cases host config state peerUrl with heq | ⟨s, -, heq⟩
  · rw [heq]
    exact KeepsTimers.refl state
  · rw [heq]
    exact .of_eq rfl rfl

theorem keepsTimers_onTimer (state : TransportState) (timer : ℕ) :
    KeepsTimers host state (onTimer host config state timer) :=
  onTimer_related KeepsTimers.refl KeepsTimers.trans keepsTimers_clearTimeout
    keepsTimers_connect state timer

theorem keepsTimers_onConnection (state : TransportState) (url : JSString) :
    KeepsTimers host state (onConnection config state url).1 := by
  unfold onConnection
  split
  · exact KeepsTimers.refl state
  · split
    · exact KeepsTimers.refl state
    · split <;> exact .of_eq rfl rfl

theorem keepsTimers_onOpen (state : TransportState) (socket : ℕ) :
    KeepsTimers host state (onOpen state socket) := by
  unfold onOpen
  split <;> exact .of_eq rfl rfl

variable (host config) in
/-- **One timer more.** A transport that is not closing schedules a timer of the peer. -/
theorem scheduleReconnect_adds {state : TransportState} (hopen : state.isClosing = false)
    (peerUrl : JSString) (timer : ℕ) (peerId : JSString) :
    PendingFor host (scheduleReconnect host config state peerUrl) timer peerId ↔
      PendingFor host state timer peerId ∨
        timer = state.timers.length ∧ extractPeerIdFromUrl host peerUrl = peerId := by
  unfold scheduleReconnect PendingFor
  simp only [hopen, Bool.false_eq_true, if_false]
  constructor
  · rintro ⟨t, ht, hpending, hpeer⟩
    rcases getElem?_concat_eq_some ht with hold | ⟨hlast, rfl⟩
    · exact Or.inl ⟨t, hold, hpending, hpeer⟩
    · exact Or.inr ⟨hlast, hpeer⟩
  · rintro (⟨t, ht, hpending, hpeer⟩ | ⟨rfl, hpeer⟩)
    · refine ⟨t, ?_, hpending, hpeer⟩
      rw [List.getElem?_append_left (List.getElem?_eq_some_iff.mp ht).1]
      exact ht
    · exact ⟨_, List.getElem?_concat_length, rfl, hpeer⟩

theorem scheduleReconnect_isClosing (state : TransportState) (peerUrl : JSString) :
    (scheduleReconnect host config state peerUrl).isClosing = state.isClosing := by
  unfold scheduleReconnect
  split <;> rfl

/-! ## Errors and closes -/

/-- What the handlers of `connect` do to the timers, when the socket has them. -/
structure RunsHandlers (host : TransportHost) (config : TransportConfig)
    (state state' : TransportState) (handlers : Handlers) : Prop where
  isClosing_eq : state'.isClosing = state.isClosing
  timers_eq : state'.timers =
    (handlers.peerUrl.elim state (scheduleReconnect host config state)).timers

theorem runsHandlers_onError {state : TransportState} {socket : ℕ} {s : Socket}
    (hs : state.sockets[socket]? = some s) (listened : Bool) :
    RunsHandlers host config state (onError host config state socket listened) s.handlers := by
  obtain ⟨peerId, handlers, readyState⟩ := s
  rw [onError, hs]
  cases handlers with
  | setupClient =>
    obtain ⟨hclosing, htimers⟩ := onClientError_frame state socket listened
    exact ⟨hclosing, htimers⟩
  | connect peerUrl =>
    obtain ⟨hclosing, htimers, -⟩ :=
      beginClosing_frame (scheduleReconnect host config state peerUrl) socket
    exact ⟨hclosing.trans (scheduleReconnect_isClosing state peerUrl), htimers⟩
  | both peerUrl =>
    obtain ⟨hclosing, htimers⟩ :=
      onClientError_frame (scheduleReconnect host config state peerUrl) socket listened
    exact ⟨hclosing.trans (scheduleReconnect_isClosing state peerUrl), htimers⟩

/-- The timers that are scheduled do not depend on the connections. -/
theorem scheduleReconnect_timers_congr {state state' : TransportState}
    (hclosing : state'.isClosing = state.isClosing) (htimers : state'.timers = state.timers)
    (hreconnect : state'.reconnectTimers = state.reconnectTimers) (peerUrl : JSString) :
    (scheduleReconnect host config state' peerUrl).timers =
      (scheduleReconnect host config state peerUrl).timers := by
  unfold scheduleReconnect
  rw [hclosing, htimers, hreconnect]
  split
  · exact htimers
  · rfl

theorem runsHandlers_onClose {state : TransportState} {socket : ℕ} {s : Socket}
    (hs : state.sockets[socket]? = some s) (hopen : s.readyState ≠ .CLOSED) :
    RunsHandlers host config state (onClose host config state socket) s.handlers := by
  obtain ⟨peerId, handlers, readyState⟩ := s
  rw [onClose, hs]
  dsimp only at hopen ⊢
  rw [if_neg hopen]
  cases handlers with
  | setupClient => exact ⟨rfl, rfl⟩
  | connect peerUrl =>
    refine ⟨scheduleReconnect_isClosing _ peerUrl, ?_⟩
    exact @scheduleReconnect_timers_congr host config state
      (deleteClient (setReadyState state socket .CLOSED) peerId) rfl rfl rfl peerUrl
  | both peerUrl =>
    refine ⟨scheduleReconnect_isClosing _ peerUrl, ?_⟩
    exact @scheduleReconnect_timers_congr host config state
      (deleteClient (setReadyState state socket .CLOSED) peerId) rfl rfl rfl peerUrl

variable (host config) in
theorem runsHandlers_of_event {state : TransportState} {event : TransportEvent} {socket : ℕ}
    {s : Socket} (hs : state.sockets[socket]? = some s)
    (hevent : (∃ listened, event = .failed socket listened) ∨
      event = .closed socket ∧ s.readyState ≠ .CLOSED) :
    RunsHandlers host config state (step host config state event) s.handlers := by
  rcases hevent with ⟨listened, rfl⟩ | ⟨rfl, hclosed⟩
  · exact runsHandlers_onError hs listened
  · exact runsHandlers_onClose hs hclosed

theorem RunsHandlers.pendingFor_iff {state state' : TransportState} {handlers : Handlers}
    (h : RunsHandlers host config state state' handlers) (hopen : state.isClosing = false)
    (timer : ℕ) (peerId : JSString) : PendingFor host state' timer peerId ↔
      PendingFor host state timer peerId ∨ timer = state.timers.length ∧
        ∃ peerUrl, handlers.peerUrl = some peerUrl ∧
          extractPeerIdFromUrl host peerUrl = peerId := by
  have htimers : PendingFor host state' timer peerId ↔ PendingFor host
      (handlers.peerUrl.elim state (scheduleReconnect host config state)) timer peerId := by
    rw [PendingFor, h.timers_eq, PendingFor]
  rw [htimers]
  cases handlers.peerUrl with
  | none => simp
  | some peerUrl =>
    refine (scheduleReconnect_adds host config hopen peerUrl timer peerId).trans ?_
    simp

/-! ## One event -/

/-- `disconnect` closes the socket of the peer, and then clears its timer. -/
theorem disconnect_eq (state : TransportState) (peerId : JSString) :
    ∃ closed : TransportState, closed.isClosing = state.isClosing ∧
      closed.timers = state.timers ∧
      disconnect state peerId =
        (state.reconnectTimers.get peerId).elim closed (clearTimeout closed) := by
  cases hclient : state.clients.get peerId with
  | none =>
    refine ⟨state, rfl, rfl, ?_⟩
    rw [disconnect, hclient]
    cases state.reconnectTimers.get peerId <;> simp
  | some socket =>
    obtain ⟨hclosing, htimers, hreconnect⟩ := beginClosing_frame state socket
    refine ⟨deleteClient (beginClosing state socket) peerId, hclosing, htimers, ?_⟩
    rw [disconnect, hclient, ← hreconnect]
    cases htimer : (beginClosing state socket).reconnectTimers.get peerId <;>
      simp [deleteClient, htimer]

theorem disconnect_isClosing (state : TransportState) (peerId : JSString) :
    (disconnect state peerId).isClosing = state.isClosing := by
  obtain ⟨closed, hclosing, -, heq⟩ := disconnect_eq state peerId
  rw [heq, ← hclosing]
  cases state.reconnectTimers.get peerId <;> rfl

/-- **The timer that is cleared.** `disconnect` clears the timer that is named for the peer. -/
theorem disconnect_pending (state : TransportState) (peerId : JSString) (timer : ℕ)
    (other : JSString) : PendingFor host (disconnect state peerId) timer other ↔
      PendingFor host state timer other ∧ state.reconnectTimers.get peerId ≠ some timer := by
  obtain ⟨closed, -, htimers, heq⟩ := disconnect_eq state peerId
  have hclosed : PendingFor host closed timer other ↔ PendingFor host state timer other := by
    rw [PendingFor, htimers, PendingFor]
  rw [heq]
  cases state.reconnectTimers.get peerId with
  | none => simpa using hclosed
  | some cleared =>
    refine pendingFor_clearTimeout.trans ?_
    rw [hclosed, ne_eq, ne_eq, Option.some.injEq, eq_comm]

theorem isClosing_foldl {f : TransportState → ℕ → TransportState}
    (hf : ∀ state k, (f state k).isClosing = state.isClosing) (l : List ℕ)
    (state : TransportState) : (l.foldl f state).isClosing = state.isClosing :=
  observe_run TransportState.isClosing hf l state

theorem isClosing_close (state : TransportState) : (close state).isClosing = true := by
  unfold close
  dsimp only
  rw [isClosing_foldl fun state k => (beginClosing_frame state k).1]
  exact isClosing_foldl (f := clearTimeout) (fun _ _ => rfl) _ _

theorem keepsTimers_foldl {f : TransportState → ℕ → TransportState}
    (hf : ∀ state k, KeepsTimers host state (f state k)) (l : List ℕ) (state : TransportState) :
    KeepsTimers host state (l.foldl f state) :=
  run_related KeepsTimers.refl KeepsTimers.trans hf l state

theorem keepsTimers_beginClosing (state : TransportState) (socket : ℕ) :
    KeepsTimers host state (beginClosing state socket) := by
  obtain ⟨hclosing, htimers, -⟩ := beginClosing_frame state socket
  exact .of_eq hclosing htimers

theorem keepsTimers_close (state : TransportState) : KeepsTimers host state (close state) := by
  refine ⟨fun h => absurd h (by simp [isClosing_close]), fun timer peerId hpending => ?_⟩
  have hcleared : KeepsTimers host { state with isClosing := true } _ :=
    keepsTimers_foldl keepsTimers_clearTimeout state.reconnectTimers.values
      { state with isClosing := true }
  have hclosed : KeepsTimers host _ _ :=
    keepsTimers_foldl keepsTimers_beginClosing
      (state.reconnectTimers.values.foldl clearTimeout
        { state with isClosing := true }).clients.values
      { state.reconnectTimers.values.foldl clearTimeout { state with isClosing := true } with
        reconnectTimers := .empty }
  exact hcleared.2 timer peerId (hclosed.2 timer peerId hpending)

variable (host config) in
/-- **The timers of one event.** None is new, or the handlers of a socket have run. -/
theorem step_timers (state : TransportState) (event : TransportEvent) :
    KeepsTimers host state (step host config state event) ∨
      ∃ socket s, state.sockets[socket]? = some s ∧
        ((∃ listened, event = .failed socket listened) ∨
          event = .closed socket ∧ s.readyState ≠ .CLOSED) ∧
        RunsHandlers host config state (step host config state event) s.handlers := by
  cases event with
  | connection url => exact Or.inl (keepsTimers_onConnection state url)
  | connect peerUrl => exact Or.inl (keepsTimers_connect state peerUrl)
  | opened socket => exact Or.inl (keepsTimers_onOpen state socket)
  | failed socket listened =>
    cases hs : state.sockets[socket]? with
    | none =>
      rw [step, onError, hs]
      exact Or.inl (KeepsTimers.refl state)
    | some s =>
      exact Or.inr ⟨socket, s, hs, Or.inl ⟨listened, rfl⟩, runsHandlers_onError hs listened⟩
  | closing socket =>
    exact Or.inl (keepsTimers_beginClosing state socket)
  | closed socket =>
    cases hs : state.sockets[socket]? with
    | none =>
      rw [step, onClose, hs]
      exact Or.inl (KeepsTimers.refl state)
    | some s =>
      by_cases hclosed : s.readyState = .CLOSED
      · rw [step, onClose, hs]
        dsimp only
        rw [if_pos hclosed]
        exact Or.inl (KeepsTimers.refl state)
      · exact Or.inr ⟨socket, s, hs, Or.inr ⟨rfl, hclosed⟩, runsHandlers_onClose hs hclosed⟩
  | timer timer => exact Or.inl (keepsTimers_onTimer state timer)
  | disconnect peerId =>
    refine Or.inl ⟨fun h => (disconnect_isClosing state peerId).symm.trans h, ?_⟩
    exact fun timer other h => ((disconnect_pending state peerId timer other).mp h).1
  | close => exact Or.inl (keepsTimers_close state)

variable (host config) in
/-- **Reconnections after one event.** A timer that would reconnect was there before and is
not the one that the event clears, or the event schedules it. -/
theorem reconnects_of_step {state : TransportState} {event : TransportEvent} {timer : ℕ}
    {peerId : JSString} (h : Reconnects host (step host config state event) timer peerId) :
    (Reconnects host state timer peerId ∧ ∀ other, event = .disconnect other →
      state.reconnectTimers.get other ≠ some timer) ∨ Schedules host state event peerId := by
  rcases step_timers host config state event with hkeeps | ⟨socket, s, hs, hevent, hruns⟩
  · refine Or.inl ⟨⟨hkeeps.1 h.1, hkeeps.2 timer peerId h.2⟩, ?_⟩
    rintro other rfl
    exact ((disconnect_pending state other timer peerId).mp h.2).2
  · have hopen : state.isClosing = false := hruns.isClosing_eq ▸ h.1
    rcases (hruns.pendingFor_iff hopen timer peerId).mp h.2 with hpending |
      ⟨-, peerUrl, hpeerUrl, hpeer⟩
    · refine Or.inl ⟨⟨hopen, hpending⟩, ?_⟩
      rintro other rfl
      simp at hevent
    · exact Or.inr ⟨hopen, socket, s, peerUrl, hs, hpeerUrl, hpeer, hevent⟩

variable (host config) in
/-- The handlers of `connect` leave a timer of the peer behind. -/
theorem reconnects_of_schedules {state : TransportState} {event : TransportEvent}
    {peerId : JSString} (h : Schedules host state event peerId) :
    Reconnects host (step host config state event) state.timers.length peerId := by
  obtain ⟨hopen, socket, s, peerUrl, hs, hpeerUrl, hpeer, hevent⟩ := h
  have hruns := runsHandlers_of_event host config hs hevent
  refine ⟨hruns.isClosing_eq.trans hopen, ?_⟩
  exact (hruns.pendingFor_iff hopen _ peerId).mpr (Or.inr ⟨rfl, peerUrl, hpeerUrl, hpeer⟩)

theorem Schedules.ne_connect {state : TransportState} {event : TransportEvent}
    {peerId : JSString} (h : Schedules host state event peerId) (peerUrl : JSString) :
    event ≠ .connect peerUrl := by
  obtain ⟨-, socket, s, -, -, -, -, ⟨listened, rfl⟩ | ⟨rfl, -⟩⟩ := h
  · simp
  · simp

/-! ## Histories -/

/-- **Durable disconnects.** A peer stays disconnected exactly in the histories in which every
`disconnect` meets no other timer of the peer than the one named for it, and no socket that was
opened to a disconnected peer fails or closes. -/
theorem disconnect_durable_iff (host : TransportHost) (config : TransportConfig)
    (events : List TransportEvent) : DisconnectDurable host config events ↔
      ∀ past event rest, events = past ++ event :: rest →
        LeavesDisconnected host config past event := by
  constructor
  · intro h past event rest hcut
    have hafter : ∀ peerId, Disconnected host (past ++ [event]) peerId → ∀ timer,
        ¬ Reconnects host (step host config (run (step host config) newTransport past) event)
          timer peerId := by
      intro peerId hdisconnected timer
      have hdurable := h (past ++ [event]) rest (by rw [hcut]; simp) peerId hdisconnected timer
      rw [run_concat] at hdurable
      exact hdurable
    refine ⟨?_, ?_⟩
    · rintro peerId rfl timer ⟨hopen, hpending⟩
      by_contra hnamed
      refine hafter peerId (disconnected_concat_iff.mpr (Or.inl rfl)) timer ⟨?_, ?_⟩
      · exact (disconnect_isClosing _ peerId).trans hopen
      · exact (disconnect_pending _ peerId timer peerId).mpr ⟨hpending, hnamed⟩
    · intro peerId hdisconnected hschedules
      refine hafter peerId (disconnected_concat_iff.mpr (Or.inr ⟨hdisconnected, ?_⟩)) _
        (reconnects_of_schedules host config hschedules)
      intro peerUrl hevent
      exact absurd hevent (hschedules.ne_connect peerUrl)
  · intro h past
    induction past using List.reverseRecOn with
    | nil =>
      rintro - - peerId - timer ⟨-, t, ht, -⟩
      cases ht
    | append_singleton past event ih =>
      intro rest hcut peerId hdisconnected timer hreconnects
      have hcut' : events = past ++ event :: rest := by rw [hcut]; simp
      obtain ⟨hmeets, hquiet⟩ := h past event rest hcut'
      rw [run_concat] at hreconnects
      rcases disconnected_concat_iff.mp hdisconnected with rfl | ⟨hbefore, -⟩
      · rcases reconnects_of_step host config hreconnects with ⟨hold, hnamed⟩ | hschedules
        · exact hnamed peerId rfl (hmeets peerId rfl timer hold)
        · obtain ⟨-, socket, s, -, -, -, -, hevent⟩ := hschedules
          simp at hevent
      · rcases reconnects_of_step host config hreconnects with ⟨hold, -⟩ | hschedules
        · exact ih (event :: rest) hcut' peerId hbefore timer hold
        · exact hquiet peerId hbefore hschedules

/-- The node connects to a peer and disconnects from it, and then the socket closes. -/
def disconnectedEvents : List TransportEvent :=
  [.connect (js "wss://alice"), .opened 0, .disconnect (js "wss://alice"), .closed 0]

/-- A timer is left that reconnects; at its end a second socket is opened to the peer. -/
theorem close_after_disconnect_reconnects :
    ¬ DisconnectDurable sampleHost (defaultConfig (js "bob")) disconnectedEvents ∧
      (run (step sampleHost (defaultConfig (js "bob"))) newTransport
        (disconnectedEvents ++ [.timer 0])).sockets.map (·.peerId) =
          [js "wss://alice", js "wss://alice"] := by
  refine ⟨?_, by decide⟩
  intro h
  refine h disconnectedEvents [] (List.append_nil _).symm (js "wss://alice") ?_ 0 ?_
  · exact ⟨[.connect (js "wss://alice"), .opened 0], [.closed 0], rfl, by simp⟩
  · exact ⟨by decide, ⟨js "wss://alice", .finite 1000, true⟩, by decide, rfl, rfl⟩

end BioFire.Transport
