import BioFire.FrameSize
import BioFire.Machines
import BioFire.PackUnpack
import BioFire.Transport

/-!
# Messages between nodes (`src/lib/network/transport.ts`)

Nodes that send and broadcast over their connections. The network may lose, repeat and alter
frames and invent others; a frame that arrives is an event with its bytes. A handler is called
in a later step (`setImmediate`). An error that nobody listens to ends the process.

* `receive_immediates`: what an arriving frame leaves to be handled;
* `handled_in_order`: accepted frames are handled once each, in their order;
* `honest_frame_rejected`: what a frame that a node sent does to its receiver;
* `nothing_is_handled`: as long as tags cannot be forged, no handler is ever called.
-/

namespace BioFire.Transport

open BinarySerializer Runs

/-! ## State -/

inductive Signal where
  | authFailure (peerId : JSString)
  | error (peerId : JSString) (error : JSError)

structure Node where
  transport : TransportState
  /-- The handler in use, by a number. -/
  messageHandler : Option ℕ
  /-- The calls of the handler that `setImmediate` put off. -/
  immediates : List (JSString × UnpackedPayload)
  /-- The calls that were made. -/
  calls : List (ℕ × JSString × UnpackedPayload)
  emitted : List Signal
  /-- The process ended, or is in an endless loop. -/
  stopped : Bool

def newNode : Node := ⟨newTransport, none, [], [], [], false⟩

/-- The configuration of a node, and whether it listens to errors. -/
structure NodeConfig where
  transport : TransportConfig
  authKey : Bytes
  listened : Bool

/-- What the nodes take from their platform. -/
structure MessagePlatform where
  host : TransportHost
  hmac : Bytes → Bytes → Digest
  sha256 : Bytes → Digest
  /-- The rounds after which a loop of `unpack` counts as endless. -/
  fuel : ℕ

structure Network where
  nodes : List Node
  /-- The frames that were sent: by which node, on which of its sockets. -/
  sent : List (ℕ × ℕ × Bytes)

inductive NetworkEvent where
  | connection (node : ℕ) (event : TransportEvent)
  | onMessage (node handler : ℕ)
  | send (node : ℕ) (peerId type : JSString) (payload : JSRecord)
  | broadcast (node : ℕ) (type : JSString) (payload : JSRecord)
  /-- A frame arrives at a socket. -/
  | frame (node socket : ℕ) (data : Bytes)
  /-- The next callback of `setImmediate`. -/
  | immediate (node : ℕ)

variable (platform : MessagePlatform)

/-! ## The code -/

/-- The frames of `send`, each on its socket. -/
def send (config : NodeConfig) (node : Node) (peerId type : JSString) (payload : JSRecord) :
    Except JSError (List (ℕ × Bytes)) :=
  match node.transport.clients.get peerId with
  | none => .error (plainError (js "Peer " ++ peerId ++ js " not connected"))
  | some socket =>
    if node.transport.readyStateOf socket ≠ some .OPEN then
      .error (plainError (js "Peer " ++ peerId ++ js " not connected"))
    else do
      let serialized ← pack platform.sha256 type payload
      let authenticated := authenticatePayload platform.hmac config.authKey serialized
      return [(socket, authenticated.bytes)]

/-- The frames of `broadcast`: one for each client that is open. -/
def broadcast (config : NodeConfig) (node : Node) (type : JSString) (payload : JSRecord) :
    Except JSError (List (ℕ × Bytes)) := do
  let serialized ← pack platform.sha256 type payload
  let authenticated := authenticatePayload platform.hmac config.authKey serialized
  let openClients := node.transport.clients.values.filter fun socket =>
    node.transport.readyStateOf socket = some .OPEN
  return openClients.map fun socket => (socket, authenticated.bytes)

/-- The socket has the listener of `setupClient` and can still get messages. -/
def Socket.listens (socket : Socket) : Bool :=
  (socket.readyState = .OPEN || socket.readyState = .CLOSING) &&
    match socket.handlers with
    | .connect _ => false
    | _ => true

/-- The listener of `setupClient` with `handleMessage`. -/
def receive (config : NodeConfig) (node : Node) (socket : ℕ) (data : Bytes) : Node :=
  match node.transport.sockets[socket]?.filter Socket.listens with
  | none => node
  | some s =>
    match onMessage platform.hmac platform.sha256 config.authKey platform.fuel data with
    | .tooLarge => { node with transport := beginClosing node.transport socket }
    | .authFailure => { node with emitted := node.emitted ++ [.authFailure s.peerId] }
    | .unpacked .running => { node with stopped := true }
    | .unpacked (.throws e) =>
      if config.listened then { node with emitted := node.emitted ++ [.error s.peerId e] }
      else { node with stopped := true }
    | .unpacked (.returns unpacked) =>
      if node.messageHandler.isSome then
        { node with immediates := node.immediates ++ [(s.peerId, unpacked)] }
      else node

def runImmediate (node : Node) : Node :=
  match node.immediates, node.messageHandler with
  | (peerId, unpacked) :: immediates, some handler =>
    { node with immediates, calls := node.calls ++ [(handler, peerId, unpacked)] }
  | _, _ => node

variable (configs : ℕ → NodeConfig)

/-- The frames that an event puts on the sockets of its node. -/
def framesSent (network : Network) : NetworkEvent → ℕ × Except JSError (List (ℕ × Bytes))
  | .send i peerId type payload =>
    (i, match network.nodes[i]? with
      | some node =>
        if node.stopped then .ok [] else send platform (configs i) node peerId type payload
      | none => .ok [])
  | .broadcast i type payload =>
    (i, match network.nodes[i]? with
      | some node =>
        if node.stopped then .ok [] else broadcast platform (configs i) node type payload
      | none => .ok [])
  | _ => (0, .ok [])

/-- A change of one node, as long as its process runs. -/
def withNode (network : Network) (i : ℕ) (change : Node → Node) : Network :=
  { network with nodes := network.nodes.modify i fun node =>
      if node.stopped then node else change node }

def networkStep (network : Network) (event : NetworkEvent) : Network :=
  match event with
  | .connection i event => withNode network i fun node =>
      { node with transport := step platform.host (configs i).transport node.transport event }
  | .onMessage i handler => withNode network i fun node =>
      { node with messageHandler := some handler }
  | .send .. | .broadcast .. =>
    match framesSent platform configs network event with
    | (i, .ok frames) => { network with sent := network.sent ++ frames.map fun f => (i, f) }
    | (_, .error _) => network
  | .frame i socket data => withNode network i fun node =>
      receive platform (configs i) node socket data
  | .immediate i => withNode network i runImmediate

/-- A network of new nodes. -/
def newNetwork (size : ℕ) : Network := ⟨List.replicate size newNode, []⟩

/-! ## What a frame does -/

section

variable {platform configs} {config : NodeConfig} {node : Node} {socket : ℕ} {data : Bytes}

/-- What a node makes of a frame: a call of its handler, with the peer of the socket. -/
def accepted (platform : MessagePlatform) (config : NodeConfig) (node : Node) (socket : ℕ)
    (data : Bytes) : List (JSString × UnpackedPayload) :=
  match node.transport.sockets[socket]?.filter Socket.listens with
  | none => []
  | some s =>
    match onMessage platform.hmac platform.sha256 config.authKey platform.fuel data with
    | .unpacked (.returns unpacked) =>
      if node.messageHandler.isSome then [(s.peerId, unpacked)] else []
    | _ => []

theorem receive_immediates :
    (receive platform config node socket data).immediates =
        node.immediates ++ accepted platform config node socket data ∧
      (receive platform config node socket data).calls = node.calls := by
  rw [receive, accepted]
  split
  · exact ⟨(List.append_nil _).symm, rfl⟩
  next s _ =>
    cases onMessage platform.hmac platform.sha256 config.authKey platform.fuel data with
    | tooLarge => exact ⟨(List.append_nil _).symm, rfl⟩
    | authFailure => exact ⟨(List.append_nil _).symm, rfl⟩
    | unpacked result =>
      cases result with
      | running => exact ⟨(List.append_nil _).symm, rfl⟩
      | throws e =>
        dsimp only
        split <;> exact ⟨(List.append_nil _).symm, rfl⟩
      | returns unpacked =>
        dsimp only
        split
        · exact ⟨rfl, rfl⟩
        · exact ⟨(List.append_nil _).symm, rfl⟩

theorem onMessage_unpacked {hmac : Bytes → Bytes → Digest} {sha256 : Bytes → Digest}
    {authKey : Bytes} {fuel : ℕ} {result : Outcome JSError UnpackedPayload}
    (h : onMessage hmac sha256 authKey fuel data = .unpacked result) :
    verifyAuthentication hmac authKey data = true ∧
      result = unpack sha256 fuel (strippedPayload data) := by
  rw [onMessage] at h
  split at h
  · cases h
  · split at h
    · cases h
    next hverified =>
      rw [Bool.not_eq_true', Bool.not_eq_false] at hverified
      exact ⟨hverified, (Reception.unpacked.inj h).symm⟩

/-! ## Handling in order -/

/-- What was handled at a node, and what waits. -/
def Node.messages (node : Node) : List (JSString × UnpackedPayload) :=
  node.calls.map Prod.snd ++ node.immediates

theorem messages_runImmediate (node : Node) : (runImmediate node).messages = node.messages := by
  rw [runImmediate]
  split
  next peerId unpacked immediates handler himmediates hhandler =>
    simp [Node.messages, himmediates]
  next => rfl

def messagesAt (network : Network) (i : ℕ) : List (JSString × UnpackedPayload) :=
  match network.nodes[i]? with
  | some node => node.messages
  | none => []

variable (platform configs) in
/-- The messages that node `i` accepts in an event. -/
def acceptedAt (i : ℕ) (network : Network) : NetworkEvent → List (JSString × UnpackedPayload)
  | .frame j socket data =>
    if j = i then
      match network.nodes[i]? with
      | some node =>
        if node.stopped then [] else accepted platform (configs i) node socket data
      | none => []
    else []
  | .connection .. | .onMessage .. | .send .. | .broadcast .. | .immediate .. => []

variable (platform configs) in
/-- An event, with the messages that node `i` accepts. -/
def acceptingStep (i : ℕ) (network : Network) (event : NetworkEvent) :
    Network × List (JSString × UnpackedPayload) :=
  (networkStep platform configs network event, acceptedAt platform configs i network event)

theorem messagesAt_withNode {network : Network} {j : ℕ} {change : Node → Node} (i : ℕ)
    (hchange : ∀ node, (change node).messages = node.messages) :
    messagesAt (withNode network j change) i = messagesAt network i := by
  rw [messagesAt, messagesAt, withNode, List.getElem?_modify]
  cases network.nodes[i]? with
  | none => rfl
  | some node =>
    by_cases hij : j = i
    · simp only [hij, if_true, Option.map_eq_map, Option.map_some]
      split
      · rfl
      · exact hchange node
    · simp [hij]

theorem messagesAt_networkStep (i : ℕ) (network : Network) (event : NetworkEvent) :
    messagesAt (networkStep platform configs network event) i =
      messagesAt network i ++ acceptedAt platform configs i network event := by
  cases event with
  | connection j event =>
    rw [acceptedAt, List.append_nil]
    exact messagesAt_withNode i fun node => rfl
  | onMessage j handler =>
    rw [acceptedAt, List.append_nil]
    exact messagesAt_withNode i fun node => rfl
  | send j peerId type payload =>
    rw [acceptedAt, List.append_nil, networkStep]
    split <;> rfl
  | broadcast j type payload =>
    rw [acceptedAt, List.append_nil, networkStep]
    split <;> rfl
  | immediate j =>
    rw [acceptedAt, List.append_nil]
    exact messagesAt_withNode i messages_runImmediate
  | frame j socket data =>
    rw [networkStep, acceptedAt, messagesAt, messagesAt, withNode, List.getElem?_modify]
    cases hnode : network.nodes[i]? with
    | none => simp
    | some node =>
      by_cases hij : j = i
      · obtain ⟨himmediates, hcalls⟩ := @receive_immediates platform (configs i) node socket data
        cases hstopped : node.stopped with
        | true => simp [hij, hstopped]
        | false => simp [hij, hstopped, Node.messages, himmediates, hcalls]
      · simp [hij]

theorem messagesAt_newNetwork (size i : ℕ) : messagesAt (newNetwork size) i = [] := by
  rw [messagesAt, newNetwork, List.getElem?_replicate]
  by_cases hi : i < size
  · rw [if_pos hi]
    rfl
  · rw [if_neg hi]

/-- **Handled once each, in order.** What the handlers of a node were called with, followed
by what still waits, is what the node accepted, in the order in which it arrived. -/
theorem handled_in_order (size i : ℕ) (events : List NetworkEvent) :
    messagesAt (run (networkStep platform configs) (newNetwork size) events) i =
      (answers (acceptingStep platform configs i) (newNetwork size) events).flatten := by
  have hlog := @collected_answers _ _ _ (acceptingStep platform configs i)
    (fun network => messagesAt network i)
    (fun network event => messagesAt_networkStep i network event) (newNetwork size) events
  rwa [messagesAt_newNetwork, List.nil_append] at hlog

/-! ## Frames of nodes -/

/-- Every frame that was sent carries a packed message, under the key of its sender. -/
def SentPacked (platform : MessagePlatform) (configs : ℕ → NodeConfig) (network : Network) :
    Prop :=
  ∀ i socket data, (i, socket, data) ∈ network.sent → ∃ type payload p,
    pack platform.sha256 type payload = .ok p ∧
      data = (authenticatePayload platform.hmac (configs i).authKey p).bytes

theorem send_packed {peerId type : JSString} {payload : JSRecord} {frames : List (ℕ × Bytes)}
    (h : send platform config node peerId type payload = .ok frames) :
    ∀ f ∈ frames, ∃ p, pack platform.sha256 type payload = .ok p ∧
      f.2 = (authenticatePayload platform.hmac config.authKey p).bytes := by
  rw [send] at h
  split at h
  · cases h
  · split at h
    · cases h
    · obtain ⟨p, hpack, hframes⟩ := bind_eq_ok h
      cases hframes
      rintro f hf
      obtain rfl := List.mem_singleton.mp hf
      exact ⟨p, hpack, rfl⟩

theorem broadcast_packed {type : JSString} {payload : JSRecord} {frames : List (ℕ × Bytes)}
    (h : broadcast platform config node type payload = .ok frames) :
    ∀ f ∈ frames, ∃ p, pack platform.sha256 type payload = .ok p ∧
      f.2 = (authenticatePayload platform.hmac config.authKey p).bytes := by
  obtain ⟨p, hpack, hframes⟩ := bind_eq_ok h
  cases hframes
  intro f hf
  obtain ⟨socket, -, rfl⟩ := List.mem_map.mp hf
  exact ⟨p, hpack, rfl⟩

theorem framesSent_packed {network : Network} {event : NetworkEvent} {i : ℕ}
    {frames : List (ℕ × Bytes)} (h : framesSent platform configs network event = (i, .ok frames)) :
    ∀ f ∈ frames, ∃ type payload p, pack platform.sha256 type payload = .ok p ∧
      f.2 = (authenticatePayload platform.hmac (configs i).authKey p).bytes := by
  intro f hf
  cases event with
  | connection | onMessage | frame | immediate =>
    cases h
    exact absurd hf List.not_mem_nil
  | send j peerId type payload =>
    obtain ⟨rfl, hsend⟩ := Prod.mk.inj h
    split at hsend
    · split at hsend
      · cases hsend
        exact absurd hf List.not_mem_nil
      · obtain ⟨p, hp⟩ := send_packed hsend f hf
        exact ⟨type, payload, p, hp⟩
    · cases hsend
      exact absurd hf List.not_mem_nil
  | broadcast j type payload =>
    obtain ⟨rfl, hsend⟩ := Prod.mk.inj h
    split at hsend
    · split at hsend
      · cases hsend
        exact absurd hf List.not_mem_nil
      · obtain ⟨p, hp⟩ := broadcast_packed hsend f hf
        exact ⟨type, payload, p, hp⟩
    · cases hsend
      exact absurd hf List.not_mem_nil

theorem sent_networkStep (network : Network) (event : NetworkEvent) :
    (networkStep platform configs network event).sent = network.sent ∨
      ∃ i frames, framesSent platform configs network event = (i, .ok frames) ∧
        (networkStep platform configs network event).sent =
          network.sent ++ frames.map fun f => (i, f) := by
  cases event with
  | connection | onMessage | frame | immediate => exact Or.inl rfl
  | send | broadcast =>
    rw [networkStep]
    split
    next i frames hframes => exact Or.inr ⟨i, frames, hframes, rfl⟩
    next => exact Or.inl rfl

theorem sentPacked_networkStep {network : Network} (h : SentPacked platform configs network)
    (event : NetworkEvent) :
    SentPacked platform configs (networkStep platform configs network event) := by
  rcases @sent_networkStep platform configs network event with
    hsame | ⟨j, frames, hframes, hsent⟩
  · intro i socket data hmem
    exact h i socket data (hsame ▸ hmem)
  · intro i socket data hmem
    rw [hsent] at hmem
    rcases List.mem_append.mp hmem with hold | hnew
    · exact h i socket data hold
    · obtain ⟨f, hf, heq⟩ := List.mem_map.mp hnew
      cases heq
      exact framesSent_packed hframes (socket, data) hf

theorem sentPacked_run (size : ℕ) (events : List NetworkEvent) :
    SentPacked platform configs (run (networkStep platform configs) (newNetwork size) events) :=
  run_invariant (SentPacked platform configs) (fun _ _ _ hmem => absurd hmem List.not_mem_nil)
    (fun _ event h => sentPacked_networkStep h event) events

/-- The bytes of a packed message are not unpacked. -/
theorem unpack_packed {sha256 : Bytes → Digest} {type : JSString} {payload : JSRecord}
    {p : SerializedPayload} (h : pack sha256 type payload = .ok p) (fuel : ℕ) :
    unpack sha256 fuel p.bytes = .throws (serializationError (js "Length mismatch")) := by
  rw [unpack, payloadHeader_pack h]
  rfl

/-- **An honest frame is rejected.** A frame that any node sent, arriving unaltered at a live
node with the same key and not too large for it, is an error there: a node that listens to
errors emits one, and a node that does not stops. -/
theorem honest_frame_rejected (size : ℕ) (events : List NetworkEvent) {i j sentOn : ℕ}
    {s : Socket} (hsent : (j, sentOn, data) ∈
      (run (networkStep platform configs) (newNetwork size) events).sent)
    (hkey : (configs j).authKey = (configs i).authKey)
    (hnode : (run (networkStep platform configs) (newNetwork size) events).nodes[i]? = some node)
    (hlive : node.stopped = false)
    (hlistens : node.transport.sockets[socket]?.filter Socket.listens = some s)
    (hsize : data.length ≤ maxPayloadSize) :
    (run (networkStep platform configs) (newNetwork size)
        (events ++ [.frame i socket data])).nodes[i]? =
      some (if (configs i).listened then { node with emitted := node.emitted ++
          [.error s.peerId (serializationError (js "Length mismatch"))] }
        else { node with stopped := true }) := by
  have hreceive : receive platform (configs i) node socket data =
      if (configs i).listened then { node with emitted := node.emitted ++
        [.error s.peerId (serializationError (js "Length mismatch"))] }
      else { node with stopped := true } := by
    obtain ⟨type, payload, p, hpack, rfl⟩ := sentPacked_run size events j sentOn data hsent
    rw [authenticatePayload_length] at hsize
    rw [receive, hlistens]
    dsimp only
    rw [hkey, onMessage_authenticatePayload hsize, unpack_packed hpack]
  rw [run_concat, networkStep, withNode, List.getElem?_modify, hnode, ← hreceive]
  simp [hlive]

/-! ## Forged tags -/

/-- A frame with a valid tag carries what a node with the same key has sent. -/
def NotForged (platform : MessagePlatform) (configs : ℕ → NodeConfig) (network : Network) :
    NetworkEvent → Prop
  | .frame i _ data => verifyAuthentication platform.hmac (configs i).authKey data = true →
    ∃ j socket sent, (j, socket, sent) ∈ network.sent ∧
      (configs j).authKey = (configs i).authKey ∧ strippedPayload data = strippedPayload sent
  | _ => True

theorem acceptedAt_notForged {network : Network} (h : SentPacked platform configs network)
    {event : NetworkEvent} (hforged : NotForged platform configs network event) (i : ℕ) :
    acceptedAt platform configs i network event = [] := by
  cases event with
  | connection | onMessage | send | broadcast | immediate => rfl
  | frame j socket data =>
    rw [acceptedAt]
    split
    next hij =>
      subst hij
      split
      next node _ =>
        split
        · rfl
        rw [accepted]
        split
        · rfl
        next s _ =>
          cases hreception : onMessage platform.hmac platform.sha256 (configs j).authKey
              platform.fuel data with
          | tooLarge => rfl
          | authFailure => rfl
          | unpacked result =>
            obtain ⟨hverified, hresult⟩ := onMessage_unpacked hreception
            obtain ⟨j', socket', sent, hsent, -, hstripped⟩ := hforged hverified
            obtain ⟨type, payload, p, hpack, rfl⟩ := h j' socket' sent hsent
            rw [hstripped, strippedPayload_authenticatePayload, unpack_packed hpack] at hresult
            rw [hresult]
      next => rfl
    next => rfl

/-- **Nothing is handled.** In every run in which no tag is forged, no node ever calls its
handler, nor has a call to make. -/
theorem nothing_is_handled (size : ℕ) (events : List NetworkEvent)
    (h : Always (networkStep platform configs) (newNetwork size) events
      (NotForged platform configs)) :
    ∀ node ∈ (run (networkStep platform configs) (newNetwork size) events).nodes,
      node.calls = [] ∧ node.immediates = [] := by
  have hquiet : ∀ i, messagesAt (run (networkStep platform configs) (newNetwork size) events) i =
      [] := by
    intro i
    refine run_induction (fun _ network => messagesAt network i = []) ?_ ?_ h
    · exact messagesAt_newNetwork size i
    · intro past event hpast hforged
      rw [messagesAt_networkStep, hpast, List.nil_append]
      exact acceptedAt_notForged (sentPacked_run size past) hforged i
  intro node hnode
  obtain ⟨i, hi⟩ := List.mem_iff_getElem?.mp hnode
  have hmessages := hquiet i
  rw [messagesAt, hi] at hmessages
  dsimp only at hmessages
  rw [Node.messages, List.append_eq_nil_iff, List.map_eq_nil_iff] at hmessages
  exact hmessages

end

/-! ## Two nodes -/

/-- Two nodes that share a key; the second one listens to errors. -/
def twoConfigs (i : ℕ) : NodeConfig := ⟨defaultConfig (js "a"), List.replicate 32 0, i = 1⟩

def samplePlatform : MessagePlatform where
  host := ⟨fun _ => none, fun _ => .ok ()⟩
  hmac _ _ := zeroDigest
  sha256 _ := zeroDigest
  fuel := 100

/-- Each node accepts a connection, and the first one broadcasts. -/
def oneBroadcast : List NetworkEvent :=
  [.connection 0 (.connection (js "/?nodeId=b")), .connection 1 (.connection (js "/?nodeId=a")),
    .onMessage 1 0, .broadcast 0 (js "ping") []]

/-- A message without fields. -/
def pingPayload : SerializedPayload where
  bytes := packPrefix 11 (textEncode (js "ping")) 0 [] ++ zeroDigest.1.take 4
  type := js "ping"
  hash := js "0x" ++ bytesToHex zeroDigest.1

/-- The frame that the first node sends. -/
def pingFrame : Bytes := pingPayload.bytes ++ zeroDigest.1

theorem sent_oneBroadcast :
    (run (networkStep samplePlatform twoConfigs) (newNetwork 2) oneBroadcast).sent =
      [(0, 0, pingFrame)] := rfl

theorem honest_frame_rejected_ping : ∃ node : Node,
    (run (networkStep samplePlatform twoConfigs) (newNetwork 2)
        (oneBroadcast ++ [.frame 1 0 pingFrame])).nodes[1]? =
      some (if (twoConfigs 1).listened then { node with emitted := node.emitted ++
          [.error (js "a") (serializationError (js "Length mismatch"))] }
        else { node with stopped := true }) := by
  have hsent : (0, 0, pingFrame) ∈
      (run (networkStep samplePlatform twoConfigs) (newNetwork 2) oneBroadcast).sent := by
    rw [sent_oneBroadcast]
    exact List.mem_singleton.mpr rfl
  exact ⟨_, honest_frame_rejected (s := ⟨js "a", .setupClient, .OPEN⟩) 2 oneBroadcast hsent rfl rfl
    rfl rfl (by decide)⟩

/-- The frame arrives, and the handler of the second node is not called. -/
theorem nothing_is_handled_ping :
    (run (networkStep samplePlatform twoConfigs) (newNetwork 2) oneBroadcast).sent =
        [(0, 0, pingFrame)] ∧
      ∀ node ∈ (run (networkStep samplePlatform twoConfigs) (newNetwork 2)
          (oneBroadcast ++ [.frame 1 0 pingFrame])).nodes,
        node.calls = [] ∧ node.immediates = [] := by
  refine ⟨sent_oneBroadcast, nothing_is_handled 2 _ (always_concat.mpr ⟨?_, ?_⟩)⟩
  · intro past event rest hcut
    have hevent : event ∈ oneBroadcast := by simp [hcut]
    simp only [oneBroadcast, List.mem_cons, List.not_mem_nil, or_false] at hevent
    rcases hevent with rfl | rfl | rfl | rfl <;> trivial
  · intro _
    refine ⟨0, 0, pingFrame, ?_, rfl, rfl⟩
    rw [sent_oneBroadcast]
    exact List.mem_singleton.mpr rfl

end BioFire.Transport
