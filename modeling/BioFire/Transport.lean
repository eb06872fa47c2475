import BioFire.InsertionMap
import BioFire.JSValue
import BioFire.ModularArithmetic
import BioFire.Runs

/-!
# Connections between the nodes (`src/lib/network/transport.ts`)

The sockets of one `SecureWebSocketTransport`, the peers they belong to, and the timers that
reconnect. `new URL` and the constructor of `WebSocket` are parameters. A socket is its
position in the list of all sockets; every handler of a socket is one step. The sockets also
stand in the order in which they were set up, each with its peer.

* `closed_drops_peer`, `step_cases`: what one event does to the connections;
* `live_connections_registered_iff`: in which runs every live connection stays registered.
-/

namespace BioFire.Transport

open Runs

structure TransportConfig where
  nodeId : JSString
  maxConnections : JSNumber
  reconnectIntervalMs : JSNumber
  reconnectMaxIntervalMs : JSNumber

/-- The configuration of a node, with the defaults of the constructor. -/
def defaultConfig (nodeId : JSString) : TransportConfig where
  nodeId
  maxConnections := .finite 100
  reconnectIntervalMs := .finite 1000
  reconnectMaxIntervalMs := .finite 30000

structure TransportHost where
  /-- `new URL(url).searchParams.get('nodeId')`, and `none` where the constructor throws. -/
  urlNodeId : JSString → Option (Option JSString)
  /-- `new WebSocket(address)` -/
  newWebSocket : JSString → Except JSError Unit

inductive ReadyState where
  | CONNECTING | OPEN | CLOSING | CLOSED
  deriving DecidableEq, Repr

/-- The functions whose handlers a socket has: `setupClient` for an inbound socket, `connect`
for an outbound one, and both once that one is open. -/
inductive Handlers where
  | setupClient
  | connect (peerUrl : JSString)
  | both (peerUrl : JSString)
  deriving DecidableEq

structure Socket where
  peerId : JSString
  handlers : Handlers
  readyState : ReadyState
  deriving DecidableEq

structure ReconnectTimer where
  peerUrl : JSString
  interval : JSNumber
  pending : Bool
  deriving DecidableEq

structure TransportState where
  sockets : List Socket
  /-- The socket of a peer, by its position. -/
  clients : InsertionMap JSString ℕ
  timers : List ReconnectTimer
  /-- The last timer of a peer, by its position. -/
  reconnectTimers : InsertionMap JSString ℕ
  isClosing : Bool
  /-- The calls of `setupClient` so far. -/
  setUps : List (JSString × ℕ)

def newTransport : TransportState := ⟨[], .empty, [], .empty, false, []⟩

/-! ## Peer ids -/

/-- The byte of an escape `%XX` at the head, and what follows. -/
def percentByte : JSString → Option (UInt8 × JSString)
  | 37 :: c :: d :: rest => do
    return (UInt8.ofNat ((← hexDigitValue c) * 16 + (← hexDigitValue d)), rest)
  | _ => none

def percentBytes : ℕ → JSString → Option (Bytes × JSString)
  | 0, s => some ([], s)
  | n + 1, s => do
    let (b, rest) ← percentByte s
    let (bs, rest) ← percentBytes n rest
    return (b :: bs, rest)

/-- The number of bytes of a character, from its first byte. -/
def utf8Length (b : UInt8) : ℕ :=
  if b < 0x80 then 1 else if b < 0xE0 then 2 else if b < 0xF0 then 3 else 4

/-- The character of which these are the bytes. -/
def utf8Character (bs : Bytes) : Option ℕ :=
  match utf8Run .start bs with
  | [c] => if utf8Bytes c = bs then some c else none
  | _ => none

/-- The rounds of `decodeURIComponent`. Each takes a unit at least, so there are no more of
them than units. -/
def decodeRounds : ℕ → JSString → Option JSString
  | _, [] => some []
  | 0, _ :: _ => none
  | n + 1, c :: rest =>
    if c = 37 then do
      let (b, _) ← percentByte (c :: rest)
      let (bs, rest) ← percentBytes (utf8Length b) (c :: rest)
      return utf16Units (← utf8Character bs) ++ (← decodeRounds n rest)
    else do return c :: (← decodeRounds n rest)

/-- `decodeURIComponent(s)`; it throws where an escape is not one of UTF-8. -/
def decodeURIComponent (s : JSString) : Except JSError JSString :=
  match decodeRounds s.length s with
  | some text => .ok text
  | none => .error externalError

/-- The group of `url.match(/[?&]nodeId=([^&]+)/)`. -/
def matchNodeId : JSString → Option JSString
  | [] => none
  | c :: rest =>
    let group := (rest.drop 7).takeWhile (· ≠ 38)
    if (c = 63 ∨ c = 38) ∧ (js "nodeId=").isPrefixOf rest ∧ group ≠ [] then some group
    else matchNodeId rest

/-- The peer id of a request; the url is empty where the request has none. -/
def extractPeerId (url : JSString) : Except JSError (Option JSString) :=
  match matchNodeId url with
  | some group => (decodeURIComponent group).map some
  | none => .ok none

variable (host : TransportHost) (config : TransportConfig)

def extractPeerIdFromUrl (url : JSString) : JSString :=
  match host.urlNodeId url with
  | some (some nodeId) => if nodeId = [] then url else nodeId
  | _ => url

example : extractPeerId (js "/mpc?x=1&nodeId=caf%C3%A9") = .ok (some (js "café")) := by decide

/-! ## Sockets -/

def TransportState.peerOf (state : TransportState) (socket : ℕ) : Option JSString :=
  state.sockets[socket]?.map (·.peerId)

def TransportState.readyStateOf (state : TransportState) (socket : ℕ) : Option ReadyState :=
  state.sockets[socket]?.map (·.readyState)

def setReadyState (state : TransportState) (socket : ℕ) (readyState : ReadyState) :
    TransportState :=
  { state with sockets := state.sockets.modify socket fun s => { s with readyState } }

/-- `ws.close` and `ws.terminate`, and the other ways in which a socket goes down. -/
def beginClosing (state : TransportState) (socket : ℕ) : TransportState :=
  match state.readyStateOf socket with
  | none | some .CLOSED => state
  | some _ => setReadyState state socket .CLOSING

def setupClient (state : TransportState) (peerId : JSString) (socket : ℕ) : TransportState :=
  { state with
    clients := state.clients.set peerId socket
    setUps := state.setUps ++ [(peerId, socket)] }

/-- What becomes of an inbound connection. -/
inductive ConnectionAnswer where
  | accepted (socket : ℕ)
  | closed (code : ℕ) (reason : JSString)
  | thrown (e : JSError)
  deriving DecidableEq

/-- The handler of `startServer`. A socket that it turns away has no handlers. -/
def onConnection (state : TransportState) (url : JSString) : TransportState × ConnectionAnswer :=
  if state.isClosing then (state, .closed 1001 (js "Server shutting down"))
  else if config.maxConnections.le (.finite state.clients.size) then
    (state, .closed 1013 (js "Max connections reached"))
  else
    match extractPeerId url with
    | .error e => (state, .thrown e)
    | .ok none | .ok (some []) => (state, .closed 1008 (js "Missing peer ID"))
    | .ok (some peerId) =>
      let socket := state.sockets.length
      (setupClient { state with sockets := state.sockets ++ [⟨peerId, .setupClient, .OPEN⟩] }
        peerId socket, .accepted socket)

/-- The address that `connect` opens. -/
def connectAddress (peerUrl : JSString) : JSString := peerUrl ++ js "?nodeId=" ++ config.nodeId

def connect (state : TransportState) (peerUrl : JSString) : Except JSError TransportState :=
  if state.isClosing then .error (plainError (js "Transport is closing"))
  else
    let peerId := extractPeerIdFromUrl host peerUrl
    if state.clients.has peerId then .ok state
    else do
      host.newWebSocket (connectAddress config peerUrl)
      return { state with
        sockets := state.sockets ++ [⟨peerId, .connect peerUrl, .CONNECTING⟩] }

/-! ## Reconnection -/

/-- `Math.min(x, y)` -/
def mathMin (x y : JSNumber) : JSNumber :=
  if x = .nan ∨ y = .nan then .nan else if x.le y then x else y

def scheduleReconnect (state : TransportState) (peerUrl : JSString) : TransportState :=
  if state.isClosing then state
  else
    let peerId := extractPeerIdFromUrl host peerUrl
    let currentInterval := if state.reconnectTimers.has peerId then
        config.reconnectIntervalMs.mulRat 2
      else config.reconnectIntervalMs
    let interval := mathMin currentInterval config.reconnectMaxIntervalMs
    { state with
      timers := state.timers ++ [⟨peerUrl, interval, true⟩]
      reconnectTimers := state.reconnectTimers.set peerId state.timers.length }

def clearTimeout (state : TransportState) (timer : ℕ) : TransportState :=
  { state with timers := state.timers.modify timer fun t => { t with pending := false } }

/-- The end of a timer that was not cleared. -/
def onTimer (state : TransportState) (timer : ℕ) : TransportState :=
  match state.timers[timer]? with
  | some ⟨peerUrl, _, true⟩ =>
    let state := clearTimeout state timer
    (connect host config state peerUrl).toOption.getD state
  | _ => state

/-! ## Handlers of a socket -/

/-- `open`, in `connect`. -/
def onOpen (state : TransportState) (socket : ℕ) : TransportState :=
  match state.sockets[socket]? with
  | some ⟨peerId, .connect peerUrl, .CONNECTING⟩ =>
    setupClient { state with
      sockets := state.sockets.set socket ⟨peerId, .both peerUrl, .OPEN⟩ } peerId socket
  | _ => state

/-- `error`, in `setupClient`: an error is emitted first, which throws when nobody listens. -/
def onClientError (state : TransportState) (socket : ℕ) (listened : Bool) : TransportState :=
  if listened then beginClosing state socket else state

/-- `error`. A socket that is not yet open goes down by itself. -/
def onError (state : TransportState) (socket : ℕ) (listened : Bool) : TransportState :=
  match state.sockets[socket]? with
  | none => state
  | some ⟨_, .setupClient, _⟩ => onClientError state socket listened
  | some ⟨_, .connect peerUrl, _⟩ =>
    beginClosing (scheduleReconnect host config state peerUrl) socket
  | some ⟨_, .both peerUrl, _⟩ =>
    onClientError (scheduleReconnect host config state peerUrl) socket listened

def deleteClient (state : TransportState) (peerId : JSString) : TransportState :=
  { state with clients := state.clients.delete peerId }

/-- The handlers of `close`, in the order in which they were attached. -/
def closeHandlers (state : TransportState) (peerId : JSString) : Handlers → TransportState
  | .setupClient => deleteClient state peerId
  | .connect peerUrl => scheduleReconnect host config (deleteClient state peerId) peerUrl
  | .both peerUrl =>
    deleteClient (scheduleReconnect host config (deleteClient state peerId) peerUrl) peerId

/-- `close`, which comes once. -/
def onClose (state : TransportState) (socket : ℕ) : TransportState :=
  match state.sockets[socket]? with
  | none => state
  | some s =>
    if s.readyState = .CLOSED then state
    else closeHandlers host config (setReadyState state socket .CLOSED) s.peerId s.handlers

/-! ## Calls -/

def disconnect (state : TransportState) (peerId : JSString) : TransportState :=
  let state := match state.clients.get peerId with
    | some socket => deleteClient (beginClosing state socket) peerId
    | none => state
  match state.reconnectTimers.get peerId with
  | some timer => clearTimeout state timer
  | none => state

def close (state : TransportState) : TransportState :=
  let state := { state with isClosing := true }
  let state := state.reconnectTimers.values.foldl clearTimeout state
  let state := { state with reconnectTimers := .empty }
  let state := state.clients.values.foldl beginClosing state
  { state with clients := .empty }

inductive TransportEvent where
  | connection (url : JSString)
  | connect (peerUrl : JSString)
  | opened (socket : ℕ)
  | failed (socket : ℕ) (listened : Bool)
  /-- The closing handshake, a timeout, or a payload too large. -/
  | closing (socket : ℕ)
  | closed (socket : ℕ)
  | timer (timer : ℕ)
  | disconnect (peerId : JSString)
  | close
  deriving DecidableEq

def step (state : TransportState) : TransportEvent → TransportState
  | .connection url => (onConnection config state url).1
  | .connect peerUrl => (connect host config state peerUrl).toOption.getD state
  | .opened socket => onOpen state socket
  | .failed socket listened => onError host config state socket listened
  | .closing socket => beginClosing state socket
  | .closed socket => onClose host config state socket
  | .timer timer => onTimer host config state timer
  | .disconnect peerId => disconnect state peerId
  | .close => close state

/-! ## Live connections -/

/-- The socket of a peer that was set up last. -/
def TransportState.newestSocket (state : TransportState) (peerId : JSString) : Option ℕ :=
  (state.setUps.reverse.find? fun e => e.1 = peerId).map Prod.snd

/-- The socket set up last for a peer, as long as it is open, is the client of the peer. -/
def Registered (state : TransportState) : Prop :=
  ∀ peerId socket, state.newestSocket peerId = some socket →
    state.readyStateOf socket = some .OPEN → state.clients.get peerId = some socket

/-- A socket closes when it is the one set up last for its peer, or when that one is not open. -/
def ClosesNewest (state : TransportState) (event : TransportEvent) : Prop :=
  ∀ socket peerId newest, event = .closed socket → state.peerOf socket = some peerId →
    state.readyStateOf socket ≠ some .CLOSED → state.newestSocket peerId = some newest →
    newest = socket ∨ state.readyStateOf newest ≠ some .OPEN

theorem newestSocket_concat {state state' : TransportState} {peerId : JSString} {socket : ℕ}
    (h : state'.setUps = state.setUps ++ [(peerId, socket)]) (other : JSString) :
    state'.newestSocket other =
      if other = peerId then some socket else state.newestSocket other := by
  simp only [TransportState.newestSocket, h, List.reverse_append, List.reverse_singleton,
    List.singleton_append, List.find?_cons]
  by_cases heq : other = peerId
  · simp [heq]
  · simp [heq, Ne.symm heq]

theorem newestSocket_congr {state state' : TransportState} (h : state'.setUps = state.setUps)
    (peerId : JSString) : state'.newestSocket peerId = state.newestSocket peerId := by
  rw [TransportState.newestSocket, h, TransportState.newestSocket]

theorem mem_setUps_of_newestSocket {state : TransportState} {peerId : JSString} {socket : ℕ}
    (h : state.newestSocket peerId = some socket) : (peerId, socket) ∈ state.setUps := by
  obtain ⟨⟨peerId', socket'⟩, hfind, rfl⟩ := Option.map_eq_some_iff.mp h
  have hpeer := List.find?_some hfind
  simp only [decide_eq_true_eq] at hpeer
  rw [← hpeer]
  exact List.mem_reverse.mp (List.mem_of_find?_eq_some hfind)

/-! ## What one event does -/

/-- No socket is set up or opened, and a client that is let go is not open. -/
structure Keeps (state state' : TransportState) : Prop where
  setUps_eq : state'.setUps = state.setUps
  peerOf_eq : ∀ {socket peerId}, state.peerOf socket = some peerId →
    state'.peerOf socket = some peerId
  of_open : ∀ {socket}, state'.readyStateOf socket = some .OPEN →
    state.readyStateOf socket = some .OPEN
  clients : ∀ {peerId socket}, state.clients.get peerId = some socket →
    state'.readyStateOf socket = some .OPEN → state'.clients.get peerId = some socket

theorem Keeps.of_eq {state state' : TransportState} (hsockets : state'.sockets = state.sockets)
    (hclients : state'.clients = state.clients) (hsetUps : state'.setUps = state.setUps) :
    Keeps state state' where
  setUps_eq := hsetUps
  peerOf_eq h := by
    rw [TransportState.peerOf, hsockets]
    exact h
  of_open h := by
    rw [TransportState.readyStateOf, ← hsockets]
    exact h
  clients h _ := by
    rw [hclients]
    exact h

theorem Keeps.refl (state : TransportState) : Keeps state state := .of_eq rfl rfl rfl

theorem Keeps.trans {state state' state'' : TransportState} (h : Keeps state state')
    (h' : Keeps state' state'') : Keeps state state'' where
  setUps_eq := h'.setUps_eq.trans h.setUps_eq
  peerOf_eq hpeer := h'.peerOf_eq (h.peerOf_eq hpeer)
  of_open hopen := h.of_open (h'.of_open hopen)
  clients hget hopen := h'.clients (h.clients hget (h'.of_open hopen)) hopen

theorem peerOf_setReadyState (state : TransportState) (socket other : ℕ)
    (readyState : ReadyState) :
    (setReadyState state socket readyState).peerOf other = state.peerOf other := by
  simp only [TransportState.peerOf, setReadyState, List.getElem?_modify, Option.map_eq_map,
    Option.map_map]
  congr 1
  funext s
  simp only [Function.comp]
  split <;> rfl

theorem readyStateOf_setReadyState (state : TransportState) (socket other : ℕ)
    (readyState : ReadyState) :
    (setReadyState state socket readyState).readyStateOf other =
      if socket = other then (state.readyStateOf other).map fun _ => readyState
      else state.readyStateOf other := by
  simp only [TransportState.readyStateOf, setReadyState, List.getElem?_modify, Option.map_eq_map,
    Option.map_map]
  split <;> rfl

theorem readyStateOf_beginClosing (state : TransportState) (socket : ℕ) :
    (beginClosing state socket).readyStateOf socket ≠ some .OPEN := by
  unfold beginClosing
  split
  next h => rw [h]; simp
  next h => rw [h]; simp
  next h =>
    rw [readyStateOf_setReadyState, if_pos rfl, h]
    simp

theorem beginClosing_clients (state : TransportState) (socket : ℕ) :
    (beginClosing state socket).clients = state.clients := by
  unfold beginClosing
  split <;> rfl

theorem keeps_beginClosing (state : TransportState) (socket : ℕ) :
    Keeps state (beginClosing state socket) := by
  unfold beginClosing
  split
  · exact Keeps.refl state
  · exact Keeps.refl state
  · refine ⟨rfl, ?_, ?_, fun hget _ => hget⟩
    · intro other peerId hpeer
      rw [peerOf_setReadyState]
      exact hpeer
    · intro other hopen
      rw [readyStateOf_setReadyState] at hopen
      split at hopen
      · cases hstate : state.readyStateOf other <;> simp [hstate] at hopen
      · exact hopen

theorem keeps_clearTimeout (state : TransportState) (timer : ℕ) :
    Keeps state (clearTimeout state timer) := .of_eq rfl rfl rfl

variable {host config}

variable (host config) in
theorem scheduleReconnect_frame (state : TransportState) (peerUrl : JSString) :
    (scheduleReconnect host config state peerUrl).sockets = state.sockets ∧
      (scheduleReconnect host config state peerUrl).clients = state.clients ∧
      (scheduleReconnect host config state peerUrl).setUps = state.setUps := by
  unfold scheduleReconnect
  split
  · exact ⟨rfl, rfl, rfl⟩
  · exact ⟨rfl, rfl, rfl⟩

theorem keeps_scheduleReconnect (state : TransportState) (peerUrl : JSString) :
    Keeps state (scheduleReconnect host config state peerUrl) := by
  obtain ⟨hsockets, hclients, hsetUps⟩ :=
    scheduleReconnect_frame host config state peerUrl
  exact .of_eq hsockets hclients hsetUps

theorem peerOf_addSocket {state : TransportState} {socket : ℕ} {peerId : JSString}
    (h : state.peerOf socket = some peerId) (s : Socket) :
    { state with sockets := state.sockets ++ [s] }.peerOf socket = some peerId := by
  obtain ⟨t, ht, hpeerId⟩ := Option.map_eq_some_iff.mp h
  have hlt := (List.getElem?_eq_some_iff.mp ht).1
  rw [TransportState.peerOf, List.getElem?_append_left hlt, ht, Option.map_some, hpeerId]

theorem readyStateOf_addSocket {state : TransportState} {socket : ℕ} {s : Socket}
    {readyState : ReadyState}
    (h : { state with sockets := state.sockets ++ [s] }.readyStateOf socket = some readyState) :
    state.readyStateOf socket = some readyState ∨
      socket = state.sockets.length ∧ s.readyState = readyState := by
  obtain ⟨t, ht, hready⟩ := Option.map_eq_some_iff.mp h
  rcases getElem?_concat_eq_some ht with hold | ⟨hlast, rfl⟩
  · left
    rw [TransportState.readyStateOf, hold, Option.map_some, hready]
  · exact Or.inr ⟨hlast, hready⟩

variable (host config) in
/-- A call of `connect` throws, finds a client, or adds a socket that is not open yet. -/
theorem connect_cases (state : TransportState) (peerUrl : JSString) :
    (connect host config state peerUrl).toOption.getD state = state ∨
      ∃ s : Socket, s.readyState = .CONNECTING ∧
        (connect host config state peerUrl).toOption.getD state =
          { state with sockets := state.sockets ++ [s] } := by
  cases hconnect : connect host config state peerUrl with
  | error e => exact Or.inl rfl
  | ok state' =>
    unfold connect at hconnect
    split at hconnect
    · cases hconnect
    · dsimp only at hconnect
      split at hconnect
      · cases hconnect
        exact Or.inl rfl
      · obtain ⟨-, -, h⟩ := bind_eq_ok hconnect
        cases h
        exact Or.inr ⟨_, rfl, rfl⟩

theorem keeps_connect (state : TransportState) (peerUrl : JSString) :
    Keeps state ((connect host config state peerUrl).toOption.getD state) := by
  rcases connect_cases host config state peerUrl with heq | ⟨s, hconnecting, heq⟩
  · rw [heq]
    exact Keeps.refl state
  · rw [heq]
    refine ⟨rfl, ?_, ?_, fun hget _ => hget⟩
    · intro socket peerId hpeer
      exact peerOf_addSocket hpeer s
    · intro socket hopen
      rcases readyStateOf_addSocket hopen with hopen | ⟨-, hready⟩
      · exact hopen
      · cases hconnecting.symm.trans hready

section Related

variable {R : TransportState → TransportState → Prop}

/-- What relates the states of clearing a timer and of `connect` relates those of a timer. -/
theorem onTimer_related (hrefl : ∀ state, R state state)
    (htrans : ∀ {state state' state''}, R state state' → R state' state'' → R state state'')
    (hclear : ∀ state timer, R state (clearTimeout state timer))
    (hconnect : ∀ state peerUrl, R state ((connect host config state peerUrl).toOption.getD state))
    (state : TransportState) (timer : ℕ) : R state (onTimer host config state timer) := by
  unfold onTimer
  split
  · exact htrans (hclear state timer) (hconnect _ _)
  · exact hrefl state

/-- What relates the states of a reconnection and of a closing relates those of an error. -/
theorem onError_related (hrefl : ∀ state, R state state)
    (htrans : ∀ {state state' state''}, R state state' → R state' state'' → R state state'')
    (hclosing : ∀ state socket, R state (beginClosing state socket))
    (hschedule : ∀ state peerUrl, R state (scheduleReconnect host config state peerUrl))
    (state : TransportState) (socket : ℕ) (listened : Bool) :
    R state (onError host config state socket listened) := by
  have hclient : ∀ state, R state (onClientError state socket listened) := by
    intro state
    unfold onClientError
    split
    · exact hclosing state socket
    · exact hrefl state
  unfold onError
  split
  · exact hrefl state
  · exact hclient state
  · exact htrans (hschedule state _) (hclosing _ socket)
  · exact htrans (hschedule state _) (hclient _)

end Related

theorem keeps_onTimer (state : TransportState) (timer : ℕ) :
    Keeps state (onTimer host config state timer) :=
  onTimer_related Keeps.refl Keeps.trans keeps_clearTimeout keeps_connect state timer

theorem keeps_onError (state : TransportState) (socket : ℕ) (listened : Bool) :
    Keeps state (onError host config state socket listened) :=
  onError_related Keeps.refl Keeps.trans keeps_beginClosing keeps_scheduleReconnect state socket
    listened

theorem keeps_deleteClient {state : TransportState} {peerId : JSString}
    (h : ∀ {socket}, state.clients.get peerId = some socket →
      state.readyStateOf socket ≠ some .OPEN) : Keeps state (deleteClient state peerId) := by
  refine ⟨rfl, fun hpeer => hpeer, fun hopen => hopen, ?_⟩
  intro other socket hget hopen
  rw [deleteClient, InsertionMap.get_delete, if_neg]
  · exact hget
  · rintro rfl
    exact h hget hopen

theorem keeps_disconnect (state : TransportState) (peerId : JSString) :
    Keeps state (disconnect state peerId) := by
  have htimer : ∀ state', Keeps state state' → Keeps state
      (match state'.reconnectTimers.get peerId with
        | some timer => clearTimeout state' timer
        | none => state') := by
    intro state' h
    split
    · exact h.trans (keeps_clearTimeout state' _)
    · exact h
  unfold disconnect
  apply htimer
  split
  next socket hget =>
    refine (keeps_beginClosing state socket).trans (keeps_deleteClient ?_)
    intro other hother
    rw [beginClosing_clients, hget] at hother
    rw [← Option.some.inj hother]
    exact readyStateOf_beginClosing state socket
  · exact Keeps.refl state

theorem keeps_foldl_beginClosing (sockets : List ℕ) (state : TransportState) :
    Keeps state (sockets.foldl beginClosing state) ∧
      ∀ socket ∈ sockets, (sockets.foldl beginClosing state).readyStateOf socket ≠ some .OPEN := by
  induction sockets generalizing state with
  | nil => exact ⟨Keeps.refl state, by simp⟩
  | cons socket sockets ih =>
    obtain ⟨hkeeps, hclosed⟩ := ih (beginClosing state socket)
    refine ⟨(keeps_beginClosing state socket).trans hkeeps, ?_⟩
    intro other hother
    rcases List.mem_cons.mp hother with rfl | hmem
    · exact fun hopen => readyStateOf_beginClosing state other (hkeeps.of_open hopen)
    · exact hclosed other hmem

theorem keeps_foldl_clearTimeout (timers : List ℕ) (state : TransportState) :
    Keeps state (timers.foldl clearTimeout state) :=
  run_related Keeps.refl Keeps.trans keeps_clearTimeout timers state

theorem foldl_clearTimeout_clients (timers : List ℕ) (state : TransportState) :
    (timers.foldl clearTimeout state).clients = state.clients := by
  have hstep : ∀ state timer, (clearTimeout state timer).clients = state.clients :=
    fun _ _ => rfl
  exact observe_run TransportState.clients hstep timers state

theorem keeps_close (state : TransportState) : Keeps state (close state) := by
  have hcleared : Keeps state
      (state.reconnectTimers.values.foldl clearTimeout { state with isClosing := true }) :=
    (Keeps.of_eq rfl rfl rfl : Keeps state { state with isClosing := true }).trans
      (keeps_foldl_clearTimeout _ _)
  have hclients := foldl_clearTimeout_clients state.reconnectTimers.values
    { state with isClosing := true }
  unfold close
  dsimp only
  generalize state.reconnectTimers.values.foldl clearTimeout { state with isClosing := true } =
    cleared at hcleared hclients ⊢
  obtain ⟨hkeeps, hclosed⟩ := keeps_foldl_beginClosing cleared.clients.values
    { cleared with reconnectTimers := .empty }
  refine ⟨hkeeps.setUps_eq.trans hcleared.setUps_eq,
    fun hpeer => hkeeps.peerOf_eq (hcleared.peerOf_eq hpeer),
    fun hopen => hcleared.of_open (hkeeps.of_open hopen), ?_⟩
  intro peerId socket hget hopen
  refine absurd hopen (hclosed socket ?_)
  rw [hclients]
  exact List.mem_map.mpr ⟨_, InsertionMap.get_eq_some_iff.mp hget, rfl⟩

/-- A call of `setupClient`: the socket is the client of its peer, and no other opened. -/
structure SetsUp (state state' : TransportState) (peerId : JSString) (socket : ℕ) : Prop where
  setUps_eq : state'.setUps = state.setUps ++ [(peerId, socket)]
  clients_eq : state'.clients = state.clients.set peerId socket
  peerOf_self : state'.peerOf socket = some peerId
  peerOf_eq : ∀ {other peerId}, state.peerOf other = some peerId →
    state'.peerOf other = some peerId
  of_open : ∀ {other}, other ≠ socket → state'.readyStateOf other = some .OPEN →
    state.readyStateOf other = some .OPEN

variable (config) in
theorem onConnection_cases (state : TransportState) (url : JSString) :
    (onConnection config state url).1 = state ∨
      ∃ peerId socket, SetsUp state (onConnection config state url).1 peerId socket := by
  unfold onConnection
  split
  · exact Or.inl rfl
  · split
    · exact Or.inl rfl
    · split
      · exact Or.inl rfl
      · exact Or.inl rfl
      · exact Or.inl rfl
      next peerId _ _ =>
        refine Or.inr ⟨peerId, state.sockets.length, rfl, rfl, ?_, ?_, ?_⟩
        · simp [TransportState.peerOf, setupClient]
        · intro other peerId' hpeer
          exact peerOf_addSocket hpeer _
        · intro other hne hopen
          rcases readyStateOf_addSocket hopen with hopen | ⟨heq, -⟩
          · exact hopen
          · exact absurd heq hne

theorem onOpen_cases (state : TransportState) (socket : ℕ) :
    onOpen state socket = state ∨ ∃ peerId, SetsUp state (onOpen state socket) peerId socket := by
  unfold onOpen
  split
  next peerId peerUrl hs =>
    have hlt := (List.getElem?_eq_some_iff.mp hs).1
    refine Or.inr ⟨peerId, rfl, rfl, ?_, ?_, ?_⟩
    · simp [TransportState.peerOf, setupClient, hlt]
    · intro other peerId' hpeer
      simp only [TransportState.peerOf, setupClient, List.getElem?_set] at hpeer ⊢
      split
      next heq =>
        subst heq
        rw [hs] at hpeer
        simpa [hlt] using hpeer
      next => exact hpeer
    · intro other hne hopen
      simp only [TransportState.readyStateOf, setupClient, List.getElem?_set_ne hne.symm] at hopen
      exact hopen
  · exact Or.inl rfl

theorem closeHandlers_frame (state : TransportState) (peerId : JSString) (handlers : Handlers) :
    (closeHandlers host config state peerId handlers).sockets = state.sockets ∧
      (closeHandlers host config state peerId handlers).setUps = state.setUps ∧
      ∀ other, (closeHandlers host config state peerId handlers).clients.get other =
        if other = peerId then none else state.clients.get other := by
  have hdelete : ∀ other, (deleteClient state peerId).clients.get other =
      if other = peerId then none else state.clients.get other :=
    fun other => InsertionMap.get_delete state.clients peerId other
  cases handlers with
  | setupClient => exact ⟨rfl, rfl, hdelete⟩
  | connect peerUrl =>
    obtain ⟨hsockets, hclients, hsetUps⟩ :=
      scheduleReconnect_frame host config (deleteClient state peerId) peerUrl
    refine ⟨hsockets, hsetUps, fun other => ?_⟩
    rw [closeHandlers, hclients]
    exact hdelete other
  | both peerUrl =>
    obtain ⟨hsockets, hclients, hsetUps⟩ :=
      scheduleReconnect_frame host config (deleteClient state peerId) peerUrl
    refine ⟨hsockets, hsetUps, fun other => ?_⟩
    rw [closeHandlers, deleteClient, InsertionMap.get_delete, hclients, hdelete]
    split <;> rfl

variable (host config) in
/-- **The close handlers.** The peer of a socket that closes has no client any more. -/
theorem closed_drops_peer {state : TransportState} {socket : ℕ} {peerId : JSString}
    (hpeer : state.peerOf socket = some peerId)
    (hready : state.readyStateOf socket ≠ some .CLOSED) :
    (onClose host config state socket).sockets = (setReadyState state socket .CLOSED).sockets ∧
      (onClose host config state socket).setUps = state.setUps ∧
      ∀ other, (onClose host config state socket).clients.get other =
        if other = peerId then none else state.clients.get other := by
  obtain ⟨s, hs, rfl⟩ := Option.map_eq_some_iff.mp hpeer
  have hclosed : s.readyState ≠ .CLOSED := by
    intro hclosed
    apply hready
    rw [TransportState.readyStateOf, hs, Option.map_some, hclosed]
  rw [onClose, hs]
  dsimp only
  rw [if_neg hclosed]
  exact closeHandlers_frame (setReadyState state socket .CLOSED) s.peerId s.handlers

variable (host config) in
/-- A socket that is not there, or closed, has no close event. -/
theorem onClose_cases (state : TransportState) (socket : ℕ) :
    onClose host config state socket = state ∨
      ∃ peerId, state.peerOf socket = some peerId ∧ state.readyStateOf socket ≠ some .CLOSED := by
  unfold onClose
  split
  · exact Or.inl rfl
  next s hs =>
    split
    · exact Or.inl rfl
    next hopen =>
      refine Or.inr ⟨s.peerId, by rw [TransportState.peerOf, hs]; rfl, ?_⟩
      rw [TransportState.readyStateOf, hs]
      simpa using hopen

variable (host config) in
/-- **Steps.** An event keeps the connections, sets a socket up, or closes one. -/
theorem step_cases (state : TransportState) (event : TransportEvent) :
    Keeps state (step host config state event) ∨
      (∃ peerId socket, SetsUp state (step host config state event) peerId socket) ∨
      ∃ socket peerId, event = .closed socket ∧ state.peerOf socket = some peerId ∧
        state.readyStateOf socket ≠ some .CLOSED := by
  cases event with
  | connection url =>
    rcases onConnection_cases config state url with h | h
    · left
      rw [step, h]
      exact Keeps.refl state
    · exact Or.inr (Or.inl h)
  | connect peerUrl => exact Or.inl (keeps_connect state peerUrl)
  | opened socket =>
    rcases onOpen_cases state socket with h | ⟨peerId, h⟩
    · left
      rw [step, h]
      exact Keeps.refl state
    · exact Or.inr (Or.inl ⟨peerId, socket, h⟩)
  | failed socket listened => exact Or.inl (keeps_onError state socket listened)
  | closing socket => exact Or.inl (keeps_beginClosing state socket)
  | closed socket =>
    rcases onClose_cases host config state socket with h | ⟨peerId, h⟩
    · left
      rw [step, h]
      exact Keeps.refl state
    · exact Or.inr (Or.inr ⟨socket, peerId, rfl, h⟩)
  | timer timer => exact Or.inl (keeps_onTimer state timer)
  | disconnect peerId => exact Or.inl (keeps_disconnect state peerId)
  | close => exact Or.inl (keeps_close state)

/-! ## Runs -/

/-- The invariant: the sockets were set up for their own peers, and the live ones are
registered. -/
structure Consistent (state : TransportState) : Prop where
  peerOf_eq : ∀ {peerId socket}, (peerId, socket) ∈ state.setUps →
    state.peerOf socket = some peerId
  registered : Registered state

theorem Consistent.keeps {state state' : TransportState} (h : Consistent state)
    (hkeeps : Keeps state state') : Consistent state' where
  peerOf_eq hmem := by
    rw [hkeeps.setUps_eq] at hmem
    exact hkeeps.peerOf_eq (h.peerOf_eq hmem)
  registered := by
    intro peerId socket hnewest hopen
    rw [newestSocket_congr hkeeps.setUps_eq] at hnewest
    exact hkeeps.clients (h.registered peerId socket hnewest (hkeeps.of_open hopen)) hopen

theorem Consistent.setsUp {state state' : TransportState} (h : Consistent state)
    {peerId : JSString} {socket : ℕ} (hsets : SetsUp state state' peerId socket) :
    Consistent state' where
  peerOf_eq := by
    intro peerId' socket' hmem
    rw [hsets.setUps_eq] at hmem
    rcases List.mem_append.mp hmem with hmem | hlast
    · exact hsets.peerOf_eq (h.peerOf_eq hmem)
    · cases List.mem_singleton.mp hlast
      exact hsets.peerOf_self
  registered := by
    intro peerId' socket' hnewest hopen
    rw [newestSocket_concat hsets.setUps_eq] at hnewest
    rw [hsets.clients_eq, InsertionMap.get_set]
    split at hnewest
    next heq => rw [if_pos heq, hnewest]
    next hne =>
      rw [if_neg hne]
      have hpeer := hsets.peerOf_eq (h.peerOf_eq (mem_setUps_of_newestSocket hnewest))
      have hother : socket' ≠ socket := by
        rintro rfl
        exact hne (Option.some.inj (hpeer.symm.trans hsets.peerOf_self))
      exact h.registered peerId' socket' hnewest (hsets.of_open hother hopen)

theorem readyStateOf_onClose {state : TransportState} {socket : ℕ} {peerId : JSString}
    (hpeer : state.peerOf socket = some peerId)
    (hready : state.readyStateOf socket ≠ some .CLOSED) (other : ℕ) :
    (onClose host config state socket).readyStateOf other =
      if socket = other then some .CLOSED else state.readyStateOf other := by
  obtain ⟨hsockets, -, -⟩ := closed_drops_peer host config hpeer hready
  rw [TransportState.readyStateOf, hsockets]
  refine (readyStateOf_setReadyState state socket other .CLOSED).trans ?_
  split
  next heq =>
    subst heq
    obtain ⟨s, hs, -⟩ := Option.map_eq_some_iff.mp hpeer
    rw [TransportState.readyStateOf, hs]
    rfl
  next => rfl

theorem Consistent.closed {state : TransportState} (h : Consistent state) {socket : ℕ}
    {peerId : JSString} (hpeer : state.peerOf socket = some peerId)
    (hready : state.readyStateOf socket ≠ some .CLOSED)
    (hnewest : ClosesNewest state (.closed socket)) :
    Consistent (onClose host config state socket) := by
  obtain ⟨hsockets, hsetUps, hclients⟩ :=
    closed_drops_peer host config hpeer hready
  refine ⟨?_, ?_⟩
  · intro peerId' socket' hmem
    rw [hsetUps] at hmem
    rw [TransportState.peerOf, hsockets]
    exact (peerOf_setReadyState state socket socket' .CLOSED).trans (h.peerOf_eq hmem)
  · intro peerId' socket' hnew hopen
    rw [newestSocket_congr hsetUps] at hnew
    rw [readyStateOf_onClose hpeer hready] at hopen
    split at hopen
    · cases hopen
    next hother =>
      rw [hclients, if_neg]
      · exact h.registered peerId' socket' hnew hopen
      · rintro rfl
        rcases hnewest socket _ socket' rfl hpeer hready hnew with heq | hnotOpen
        · exact hother heq.symm
        · exact hnotOpen hopen

/-- **Live connections.** Every live connection stays registered exactly in the runs in
which no socket closes after a newer one of its peer, still open, was set up. -/
theorem live_connections_registered_iff (host : TransportHost) (config : TransportConfig)
    (events : List TransportEvent) :
    Throughout (step host config) newTransport events Registered ↔
      Always (step host config) newTransport events ClosesNewest := by
  constructor
  · intro h past event rest hcut socket peerId newest hevent hpeer hready hnewest
    subst hevent
    by_contra hcontra
    obtain ⟨hother, hopen⟩ := not_or.mp hcontra
    rw [not_not] at hopen
    obtain ⟨-, hsetUps, hclients⟩ :=
      closed_drops_peer host config hpeer hready
    have hget : (onClose host config (run (step host config) newTransport past) socket).clients.get
        peerId = some newest := by
      have hafter := h (past ++ [.closed socket]) rest (by rw [hcut]; simp)
      rw [run_concat] at hafter
      apply hafter peerId newest
      · exact (newestSocket_congr hsetUps peerId).trans hnewest
      · refine (readyStateOf_onClose hpeer hready newest).trans ?_
        rw [if_neg (Ne.symm hother)]
        exact hopen
    rw [hclients, if_pos rfl] at hget
    cases hget
  · intro h past rest hcut
    have hstart : Consistent newTransport := by
      refine ⟨?_, ?_⟩
      · intro peerId socket hmem
        cases hmem
      · intro peerId socket hnewest
        cases hnewest
    refine (throughout_induction Consistent hstart ?_ h past rest hcut).registered
    intro state event hstate hevent
    rcases step_cases host config state event with
      hkeeps | ⟨peerId, socket, hsets⟩ | ⟨socket, peerId, rfl, hpeer, hready⟩
    · exact hstate.keeps hkeeps
    · exact hstate.setsUp hsets
    · exact hstate.closed hpeer hready hevent

def sampleHost : TransportHost := ⟨fun _ => none, fun _ => .ok ()⟩

/-- Alice connects, connects again, and then her first socket closes. -/
def reconnectedEvents : List TransportEvent :=
  [.connection (js "/?nodeId=alice"), .connection (js "/?nodeId=alice"), .closing 0, .closed 0]

/-- The second socket is open, and Alice has no client. -/
theorem late_close_unregisters :
    ¬ Throughout (step sampleHost (defaultConfig (js "bob"))) newTransport reconnectedEvents
      Registered := by
  intro h
  have hget := h reconnectedEvents [] (List.append_nil _).symm (js "alice") 1 (by decide)
    (by decide)
  revert hget
  decide

end BioFire.Transport
