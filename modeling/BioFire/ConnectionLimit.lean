import BioFire.Transport

/-!
# The limit of connections (`src/lib/network/transport.ts`)

The handler of `startServer` turns a connection away when the clients are as many as
`maxConnections`. The `open` handler of `connect` sets its socket up without that check.

* `clients_of_admittedPeer`, `dropsClients_of_admittedPeer`: what one event does to the clients;
* `connection_limit_iff`: in which runs the clients stay within the limit.
-/

namespace BioFire.Transport

open Runs

variable (host : TransportHost) (config : TransportConfig)

/-- There are at most `maxConnections` clients. -/
def WithinLimit (state : TransportState) : Prop :=
  (JSNumber.finite state.clients.size).le config.maxConnections = true

/-- The peer whose socket the event sets up. -/
def admittedPeer (state : TransportState) : TransportEvent → Option JSString
  | .connection url =>
    if state.isClosing ∨ config.maxConnections.le (.finite state.clients.size) then none
    else
      match extractPeerId url with
      | .ok (some (c :: rest)) => some (c :: rest)
      | _ => none
  | .opened socket =>
    match state.sockets[socket]? with
    | some ⟨peerId, .connect _, .CONNECTING⟩ => some peerId
    | _ => none
  | _ => none

/-- The peer that the event admits is a client already, or there is room for one more. -/
def AdmitsWithinLimit (state : TransportState) (event : TransportEvent) : Prop :=
  ∀ peerId, admittedPeer config state event = some peerId → state.clients.has peerId = true ∨
    (JSNumber.finite ((state.clients.size + 1 : ℕ) : ℚ)).le config.maxConnections = true

/-! ## Events that admit nobody -/

/-- The clients are some of those before. -/
def DropsClients (state state' : TransportState) : Prop :=
  List.Sublist state'.clients.entries state.clients.entries

variable {host config}

theorem DropsClients.of_eq {state state' : TransportState} (h : state'.clients = state.clients) :
    DropsClients state state' := by
  rw [DropsClients, h]

theorem DropsClients.refl (state : TransportState) : DropsClients state state := .of_eq rfl

theorem DropsClients.trans {state state' state'' : TransportState} (h : DropsClients state state')
    (h' : DropsClients state' state'') : DropsClients state state'' :=
  List.Sublist.trans h' h

theorem dropsClients_deleteClient (state : TransportState) (peerId : JSString) :
    DropsClients state (deleteClient state peerId) := List.filter_sublist

theorem dropsClients_beginClosing (state : TransportState) (socket : ℕ) :
    DropsClients state (beginClosing state socket) := .of_eq (beginClosing_clients state socket)

theorem dropsClients_scheduleReconnect (state : TransportState) (peerUrl : JSString) :
    DropsClients state (scheduleReconnect host config state peerUrl) :=
  .of_eq (scheduleReconnect_frame host config state peerUrl).2.1

theorem dropsClients_connect (state : TransportState) (peerUrl : JSString) :
    DropsClients state ((connect host config state peerUrl).toOption.getD state) := by
  rcases connect_cases host config state peerUrl with heq | ⟨s, -, heq⟩
  · rw [heq]
    exact DropsClients.refl state
  · rw [heq]
    exact .of_eq rfl

theorem dropsClients_clearTimeout (state : TransportState) (timer : ℕ) :
    DropsClients state (clearTimeout state timer) := .of_eq rfl

theorem dropsClients_onTimer (state : TransportState) (timer : ℕ) :
    DropsClients state (onTimer host config state timer) :=
  onTimer_related DropsClients.refl DropsClients.trans dropsClients_clearTimeout
    dropsClients_connect state timer

theorem dropsClients_onError (state : TransportState) (socket : ℕ) (listened : Bool) :
    DropsClients state (onError host config state socket listened) :=
  onError_related DropsClients.refl DropsClients.trans dropsClients_beginClosing
    dropsClients_scheduleReconnect state socket listened

theorem dropsClients_closeHandlers (state : TransportState) (peerId : JSString)
    (handlers : Handlers) :
    DropsClients state (closeHandlers host config state peerId handlers) := by
  have hdeleted := dropsClients_deleteClient state peerId
  cases handlers with
  | setupClient => exact hdeleted
  | connect peerUrl => exact hdeleted.trans (dropsClients_scheduleReconnect _ peerUrl)
  | both peerUrl =>
    exact (hdeleted.trans (dropsClients_scheduleReconnect _ peerUrl)).trans
      (dropsClients_deleteClient _ peerId)

theorem dropsClients_onClose (state : TransportState) (socket : ℕ) :
    DropsClients state (onClose host config state socket) := by
  unfold onClose
  split
  · exact DropsClients.refl state
  next s hs =>
    split
    · exact DropsClients.refl state
    · exact dropsClients_closeHandlers (setReadyState state socket .CLOSED) s.peerId s.handlers

theorem dropsClients_disconnect (state : TransportState) (peerId : JSString) :
    DropsClients state (disconnect state peerId) := by
  cases hclient : state.clients.get peerId with
  | none =>
    rw [disconnect, hclient]
    dsimp only
    split
    · exact DropsClients.refl state
    · exact DropsClients.refl state
  | some socket =>
    have hdeleted := (dropsClients_beginClosing state socket).trans
      (dropsClients_deleteClient _ peerId)
    rw [disconnect, hclient]
    dsimp only
    split
    · exact hdeleted
    · exact hdeleted

variable (host) in
/-- **An event that admits nobody.** It adds no client. -/
theorem dropsClients_of_admittedPeer {state : TransportState} {event : TransportEvent}
    (h : admittedPeer config state event = none) :
    DropsClients state (step host config state event) := by
  cases event with
  | connection url =>
    rw [step, onConnection]
    rw [admittedPeer] at h
    split at h
    next hfull =>
      rcases hfull with hclosing | hfull
      · rw [if_pos hclosing]
        exact DropsClients.refl state
      · rw [if_pos hfull]
        split <;> exact DropsClients.refl state
    next hroom =>
      obtain ⟨hclosing, hroom⟩ := not_or.mp hroom
      rw [if_neg hclosing, if_neg hroom]
      split at h
      · cases h
      next hpeer =>
        split
        · exact DropsClients.refl state
        · exact DropsClients.refl state
        · exact DropsClients.refl state
        next peerId hne hok =>
          cases peerId with
          | nil => exact absurd rfl hne
          | cons c rest => exact absurd hok (hpeer c rest)
  | connect peerUrl => exact dropsClients_connect state peerUrl
  | opened socket =>
    rw [step, onOpen]
    rw [admittedPeer] at h
    split
    next hs =>
      rw [hs] at h
      cases h
    · exact DropsClients.refl state
  | failed socket listened => exact dropsClients_onError state socket listened
  | closing socket => exact dropsClients_beginClosing state socket
  | closed socket => exact dropsClients_onClose state socket
  | timer timer => exact dropsClients_onTimer state timer
  | disconnect peerId => exact dropsClients_disconnect state peerId
  | close => exact List.nil_sublist _

variable (host) in
/-- **An event that admits a peer.** Its socket becomes the client of the peer. -/
theorem clients_of_admittedPeer {state : TransportState} {event : TransportEvent}
    {peerId : JSString} (h : admittedPeer config state event = some peerId) :
    ∃ socket, (step host config state event).clients = state.clients.set peerId socket := by
  unfold admittedPeer at h
  split at h
  next url =>
    split at h
    · cases h
    next hroom =>
      obtain ⟨hclosing, hroom⟩ := not_or.mp hroom
      split at h
      next hpeer =>
        cases h
        refine ⟨state.sockets.length, ?_⟩
        rw [step, onConnection, if_neg hclosing, if_neg hroom, hpeer]
        rfl
      · cases h
  next socket =>
    split at h
    next hs =>
      cases h
      refine ⟨socket, ?_⟩
      rw [step, onOpen, hs]
      rfl
    · cases h
  · cases h

/-! ## Runs -/

theorem WithinLimit.step {state : TransportState} {event : TransportEvent}
    (h : WithinLimit config state) (hadmits : AdmitsWithinLimit config state event) :
    WithinLimit config (step host config state event) := by
  cases hpeer : admittedPeer config state event with
  | none => exact JSNumber.le_of_natCast_le (dropsClients_of_admittedPeer host hpeer).length_le h
  | some peerId =>
    obtain ⟨socket, hclients⟩ := clients_of_admittedPeer host hpeer
    rw [WithinLimit, hclients]
    rcases hadmits peerId hpeer with hhas | hroom
    · exact JSNumber.le_of_natCast_le
        (InsertionMap.size_set_of_mem (InsertionMap.has_iff.mp hhas) socket).le h
    · exact JSNumber.le_of_natCast_le (InsertionMap.size_set_le state.clients peerId socket) hroom

/-- A whole limit is enough for the inbound connections, which are checked. -/
theorem admitsWithinLimit_connection {limit : ℕ}
    (hlimit : config.maxConnections = .finite (limit : ℚ)) (state : TransportState)
    (url : JSString) : AdmitsWithinLimit config state (.connection url) := by
  intro peerId hpeer
  right
  rw [admittedPeer] at hpeer
  split at hpeer
  · cases hpeer
  next hroom =>
    have hfull := (not_or.mp hroom).2
    rw [hlimit, JSNumber.le_finite, decide_eq_true_eq, Nat.cast_le] at hfull ⊢
    omega

/-- **The limit of connections.** The clients stay within the limit exactly in the runs in
which each peer that is admitted is a client already or has a place left. -/
theorem connection_limit_iff (host : TransportHost) (config : TransportConfig)
    (events : List TransportEvent) :
    Throughout (step host config) newTransport events (WithinLimit config) ↔
      (JSNumber.finite 0).le config.maxConnections = true ∧
        Always (step host config) newTransport events (AdmitsWithinLimit config) := by
  have hstart : WithinLimit config newTransport ↔
      (JSNumber.finite 0).le config.maxConnections = true := by
    rw [WithinLimit, show newTransport.clients.size = 0 from rfl, Nat.cast_zero]
  constructor
  · intro h
    refine ⟨hstart.mp (h [] events rfl), ?_⟩
    intro past event rest hcut peerId hpeer
    obtain ⟨socket, hclients⟩ := clients_of_admittedPeer host hpeer
    have hafter := h (past ++ [event]) rest (by rw [hcut]; simp)
    rw [run_concat, WithinLimit, hclients] at hafter
    by_cases hhas : peerId ∈ (run (step host config) newTransport past).clients.keys
    · exact Or.inl (InsertionMap.has_iff.mpr hhas)
    · right
      rw [InsertionMap.size_set_of_not_mem hhas] at hafter
      exact hafter
  · rintro ⟨hlimit, hadmits⟩
    exact throughout_induction (WithinLimit config) (hstart.mpr hlimit)
      (fun _ _ hstate hevent => hstate.step hevent) hadmits

/-- A node that takes one connection opens two, to Alice and to Carol. -/
def twoConnects : List TransportEvent :=
  [.connect (js "wss://alice"), .connect (js "wss://carol"), .opened 0, .opened 1]

/-- Both are clients, though the limit is one. -/
theorem outbound_exceeds_limit :
    ¬ Throughout (step sampleHost { defaultConfig (js "bob") with maxConnections := .finite 1 })
      newTransport twoConnects
      (WithinLimit { defaultConfig (js "bob") with maxConnections := .finite 1 }) := by
  intro h
  have hlast := h twoConnects [] (List.append_nil _).symm
  revert hlast
  unfold WithinLimit
  decide

end BioFire.Transport
