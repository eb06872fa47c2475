import BioFire.EnclaveStatus
import BioFire.Machines
import BioFire.MerkleRoot
import BioFire.Server
import BioFire.SigningSession

/-!
# The production server (`server.ts`)

The routes over the engines that they share. No engine that a handler awaits gives way to another
request, so a request is one call. Requests have a route and a body that is read; the security
headers and the listening sockets are left out. The limiter comes before the routes and counts
every request of an address: what it says of a request is part of the call.

* `api_accounts`: what a run of requests leaves in the audit log and in the metrics; no ceremony
  is ever answered;
* `log_answers`: what the audit routes answer.
-/

namespace BioFire.Server

open AuditChain Enclave Mpc Policy Runs

/-! ## Requests and answers -/

/-- `BIOFIRE_API_KEY`; the process exits on the other values. -/
structure ApiKey where
  text : JSString
  ne_nil : text ≠ []
  ne_dev : text ≠ js "dev-api-key"

/-- A request with the fields that its handler reads. `curve`, `symbol` and `dropNodeId` are
strings or absent; `limit` is the text that `parseInt` reads. -/
inductive ApiRequest where
  | health
  | metrics
  | dkg (threshold totalParties : JSValue) (curve : Option JSString)
  | sign (chainId amount : JSValue) (symbol : Option JSString) (toAddress : JSValue)
      (dropNodeId : Option JSString)
  | auditVerify
  | auditLogs (limit : JSString)
  | hsmStatus
  | hsmTamper

/-- The `requireApiKey` of the routes. -/
def ApiRequest.isProtected : ApiRequest → Bool
  | .health | .metrics => false
  | _ => true

/-- What a handler draws and reads from clocks. -/
structure ApiDraws (q : ℤ) where
  now : ℤ
  cleanup : Option ℤ
  createdAt : ℤ
  timestamp : JSString
  random : Bytes
  dkg : DkgRandomness q
  signing : SigningRandomness q

structure ApiCall (q : ℤ) where
  /-- The limiter has counted too many requests of the address. -/
  limited : Bool
  /-- The header `x-api-key`. -/
  key : Option JSString
  request : ApiRequest
  draws : ApiDraws q

/-- What `verifyChainIntegrity` of `AuditChainEngine` returns. -/
structure ChainReport where
  isChainValid : Bool
  totalBlocksChecked : ℕ
  corruptedBlockIndex : Option ℕ
  details : JSString
  merkleRoot : JSString

/-- What `toAuditLogItem` makes of an entry. -/
structure ListedItem extends AuditLogItem where
  actorIp : Option JSString
  merkleRoot : Option JSString

/-- The counters of `metricsRegistry`. -/
structure MetricsCounters where
  dkg : ℕ
  signingOps : ℕ
  policyViolation : ℕ
  deriving DecidableEq

inductive ApiResponse where
  | error (status : ℕ) (error : JSString)
  | health (timestamp : JSString)
  | metrics (counters : MetricsCounters)
  | session (session : DKGSession)
  | ceremony (ceremony : SigningCeremonyState)
  | blocked (policyResult : PolicyEvaluationResult)
  | integrity (report : ChainReport)
  | logs (items : List ListedItem)
  | enclave (report : EnclaveReport)

structure ApiState where
  mpc : MpcState
  policy : PolicyState
  audit : AuditState
  driver : EnclaveState Unit Unit
  counters : MetricsCounters

/-! ## Validation and conversion -/

/-- An integer in a range. -/
def integerBetween (low high : ℤ) : JSValue → Option ℕ
  | .number (.finite x) => if x.den = 1 ∧ low ≤ x.num ∧ x.num ≤ high then some x.num.toNat else none
  | _ => none

def validateMPCParams (threshold totalParties : JSValue) : Except JSString (ℕ × ℕ) :=
  match integerBetween 2 20 threshold with
  | none => .error (js "threshold must be an integer between 2 and 20")
  | some t =>
    match integerBetween 2 50 totalParties with
    | none => .error (js "totalParties must be an integer between 2 and 50")
    | some n =>
      if n < t then .error (js "threshold cannot exceed totalParties") else .ok (t, n)

/-- `parseInt(s)`. -/
def parseInt (s : JSString) : JSNumber :=
  let s := s.dropWhile isWhitespace
  let negative := s.head? = some 45
  let s := if s.head? = some 43 ∨ s.head? = some 45 then s.tail else s
  let value : Option ℕ :=
    if (js "0x").isPrefixOf s ∨ (js "0X").isPrefixOf s then
      let digits := ((s.drop 2).takeWhile isHexDigit).filterMap hexDigitValue
      if digits = [] then none else some (digits.foldl (fun value d => value * 16 + d) 0)
    else
      let digits := s.takeWhile isDigit
      if digits = [] then none else some (digitsValue digits)
  match value with
  | none => .nan
  | some value => .ofRat (if negative then -(value : ℚ) else value)

example : parseInt (js " -12px") = .finite (-12) := by with_unfolding_all decide

/-- `parseInt(limit) || 100` -/
def limitOrDefault (limit : JSString) : JSNumber :=
  if parseInt limit = .nan ∨ parseInt limit = .finite 0 then .finite 100 else parseInt limit

/-- `entries.slice(-limit)`: how many entries are cut off at the front. -/
def sliceStart (limit : JSNumber) (length : ℕ) : ℕ :=
  match limit with
  | .negInfinity => length
  | .finite _ =>
    let start := -limit.truncate
    if start < 0 then (length + start).toNat else start.toNat
  | _ => 0

def toAuditLogItem (entry : AuditEntry) : ListedItem where
  id := entry.id
  index := entry.idx
  timestamp := entry.timestamp
  action := entry.action
  actor := entry.actor
  actorIp := entry.actorIp
  details := entry.details
  previousHash := entry.previousHash
  currentHash := entry.hash
  signature := entry.signature
  merkleRoot := entry.merkleRoot

/-- `getLogs` with a limit other than zero and `NaN`. -/
def getLogs (memoryChain : List AuditEntry) (limit : JSNumber) : List ListedItem :=
  (memoryChain.drop (sliceStart limit memoryChain.length)).map toAuditLogItem

/-- `AuditChainEngine.verifyChainIntegrity` -/
def chainReport (sha256 : Bytes → Digest) (memoryChain : List AuditEntry) : ChainReport :=
  let res := verifyChainIntegrity sha256 memoryChain
  let root := getMerkleRoot sha256 memoryChain
  { isChainValid := res.isValid
    totalBlocksChecked := res.totalBlocks
    corruptedBlockIndex := res.brokenAtStep
    details :=
      if res.isValid then
        js "All " ++ decimal res.totalBlocks ++ js " audit chain blocks verified. Merkle root: " ++
          root
      else js "Broken link at block " ++ (res.brokenAtStep.elim (js "undefined") decimal)
    merkleRoot := root }

/-! ## The handlers -/

section Handlers

variable {G : Type} [AddCommGroup G] [DecidableEq G] (curve : Curve G) (sha256 : Bytes → Digest)
  (platform : Platform)

def ApiState.append (s : ApiState) (action actor details timestamp : JSString) : ApiState :=
  { s with audit := appendLog sha256 s.audit ⟨action, actor, details, none, timestamp⟩ }

/-- `POST /api/v6/mpc/dkg` -/
def handleDkg (s : ApiState) (threshold totalParties : JSValue) (curveType : Option JSString)
    (draws : ApiDraws curve.CURVE_ORDER) : ApiState × ApiResponse :=
  match validateMPCParams threshold totalParties with
  | .error e => (s, .error 400 e)
  | .ok (t, n) =>
    let curveType := match curveType with
      | none | some [] => js "secp256k1"
      | some name => name
    match executeDKG curve s.mpc.dkg t n curveType draws.dkg draws.now with
    | (dkg, .error _) => ({ s with mpc := { s.mpc with dkg } }, .error 500 (js "DKG failed"))
    | (dkg, .ok session) =>
      let s := { s with mpc := { s.mpc with dkg } }
      let s := s.append sha256 (js "DKG_INITIATED") (js "API") (js "Session " ++
        session.sessionId ++ js " with threshold " ++ decimal t ++ js "-of-" ++ decimal n)
        draws.timestamp
      ({ s with counters := { s.counters with dkg := s.counters.dkg + 1 } }, .session session)

/-- The `string` that a validator has accepted. -/
def textOf : JSValue → JSString
  | .string s => s
  | _ => []

/-- `${text}` -/
def templateText (text : Option JSString) : JSString := text.getD (js "undefined")

/-- `POST /api/v6/mpc/sign`. An absent symbol is only read for texts. -/
def handleSign (s : ApiState) (chainId amount : JSValue) (symbol : Option JSString)
    (toAddress : JSValue) (dropNodeId : Option JSString) (draws : ApiDraws curve.CURVE_ORDER) :
    ApiState × ApiResponse :=
  let request : SignRequest := ⟨chainId, amount, symbol.elim .undefined .string, toAddress,
    dropNodeId.elim .undefined .string⟩
  match signDecision platform s.policy request draws.now draws.cleanup with
  | (policy, .badRequest error) => ({ s with policy }, .error 400 error)
  | (policy, .failed _) => ({ s with policy }, .error 500 (js "Signing failed"))
  | (policy, .blocked policyResult) =>
    let s := { s with
      policy
      counters := { s.counters with policyViolation := s.counters.policyViolation + 1 } }
    (s.append sha256 (js "POLICY_BLOCKED") (js "POLICY_ENGINE") (js "Blocked tx to " ++
      textOf toAddress ++ js ": " ++ (js ", ").intercalate policyResult.rejectionReasons)
      draws.timestamp, .blocked policyResult)
  | (policy, .signing _) =>
    match executeThresholdSigning curve sha256 s.mpc (textOf chainId) (textOf amount)
        (templateText symbol) (textOf toAddress) dropNodeId draws.signing draws.now
        draws.createdAt with
    | (mpc, .error _) => ({ s with policy, mpc }, .error 500 (js "Signing failed"))
    | (mpc, .ok ceremony) =>
      let s := { s with
        policy
        mpc
        counters := { s.counters with signingOps := s.counters.signingOps + 1 } }
      (s.append sha256 (js "SIGNING_COMPLETED") (js "API") (js "Ceremony " ++ ceremony.ceremonyId ++
        js " for " ++ textOf amount ++ js " " ++ templateText symbol) draws.timestamp,
        .ceremony ceremony)

/-- `POST /api/v6/hsm/tamper` -/
def handleTamper (s : ApiState) (draws : ApiDraws curve.CURVE_ORDER) : ApiState × ApiResponse :=
  let (driver, report) := HSMEnclaveSimulator.triggerTamperAlert s.driver draws.random draws.now
  (ApiState.append sha256 { s with driver } (js "HSM_TAMPER") (js "SECURITY")
    (js "HSM tamper alert triggered") draws.timestamp, .enclave report)

/-- A request that has passed the limiter and the check of its key. -/
def handleRequest (s : ApiState) (request : ApiRequest) (draws : ApiDraws curve.CURVE_ORDER) :
    ApiState × ApiResponse :=
  match request with
  | .health => (s, .health draws.timestamp)
  | .metrics => (s, .metrics s.counters)
  | .dkg threshold totalParties curveType =>
    handleDkg curve sha256 s threshold totalParties curveType draws
  | .sign chainId amount symbol toAddress dropNodeId =>
    handleSign curve sha256 platform s chainId amount symbol toAddress dropNodeId draws
  | .auditVerify => (s, .integrity (chainReport sha256 s.audit.memoryChain))
  | .auditLogs limit => (s, .logs (getLogs s.audit.memoryChain (limitOrDefault limit)))
  | .hsmStatus =>
    (s, .enclave (HSMEnclaveSimulator.getStatus SoftwareSimulationHSMDriver draws.random draws.now))
  | .hsmTamper => handleTamper curve sha256 s draws

/-- The request is answered by its handler. -/
def admitted (expected : ApiKey) (call : ApiCall curve.CURVE_ORDER) : Bool :=
  !call.limited && (!call.request.isProtected || call.key = some expected.text)

/-- The answer of the limiter, or of `requireApiKey`. -/
def refusal {q : ℤ} (call : ApiCall q) : ApiResponse :=
  if call.limited then .error 429 (js "Too many requests") else .error 401 (js "Unauthorized")

def serve (expected : ApiKey) (s : ApiState) (call : ApiCall curve.CURVE_ORDER) :
    ApiState × ApiResponse :=
  if admitted curve expected call then handleRequest curve sha256 platform s call.request call.draws
  else (s, refusal call)

end Handlers

/-! ## What one request does -/

def ApiResponse.isSession : ApiResponse → Bool
  | .session _ => true
  | _ => false

def ApiResponse.isBlocked : ApiResponse → Bool
  | .blocked _ => true
  | _ => false

def ApiResponse.isCeremony : ApiResponse → Bool
  | .ceremony _ => true
  | _ => false

/-- What a request appends to the audit log, told by its answer. -/
def recordsOf {q : ℤ} (call : ApiCall q) (response : ApiResponse) : List AppendCall :=
  match call.request, response with
  | .dkg .., .session session =>
    [⟨js "DKG_INITIATED", js "API", js "Session " ++ session.sessionId ++ js " with threshold " ++
      decimal session.threshold ++ js "-of-" ++ decimal session.totalParties, none,
      call.draws.timestamp⟩]
  | .sign _ _ _ toAddress _, .blocked policyResult =>
    [⟨js "POLICY_BLOCKED", js "POLICY_ENGINE", js "Blocked tx to " ++ textOf toAddress ++ js ": " ++
      (js ", ").intercalate policyResult.rejectionReasons, none, call.draws.timestamp⟩]
  | .hsmTamper, .enclave _ =>
    [⟨js "HSM_TAMPER", js "SECURITY", js "HSM tamper alert triggered", none,
      call.draws.timestamp⟩]
  | _, _ => []

/-- An answer of an audit route is read off the chain. -/
def ReadsChain (sha256 : Bytes → Digest) (chain : List AuditEntry) (request : ApiRequest) :
    ApiResponse → Prop
  | .logs items =>
    ∃ limit, request = .auditLogs limit ∧ items = getLogs chain (limitOrDefault limit)
  | .integrity report => report = chainReport sha256 chain
  | _ => True

/-- The state and the answer of a request, against the state before. -/
structure Accounts {q : ℤ} (sha256 : Bytes → Digest) (s : ApiState) (call : ApiCall q)
    (next : ApiState × ApiResponse) : Prop where
  audit : next.1.audit = run (appendLog sha256) s.audit (recordsOf call next.2)
  dkg : next.1.counters.dkg = s.counters.dkg + if next.2.isSession then 1 else 0
  policyViolation : next.1.counters.policyViolation =
    s.counters.policyViolation + if next.2.isBlocked then 1 else 0
  signingOps : next.1.counters.signingOps = s.counters.signingOps
  no_ceremony : next.2.isCeremony = false
  reads : ReadsChain sha256 s.audit.memoryChain call.request next.2

section

variable {G : Type} [AddCommGroup G] [DecidableEq G] {curve : Curve G} {sha256 : Bytes → Digest}
  {platform : Platform}

theorem Accounts.read {q : ℤ} {s : ApiState} {call : ApiCall q} {response : ApiResponse}
    (hrecords : recordsOf call response = []) (hsession : response.isSession = false)
    (hblocked : response.isBlocked = false) (hceremony : response.isCeremony = false)
    (hreads : ReadsChain sha256 s.audit.memoryChain call.request response) :
    Accounts sha256 s call (s, response) where
  audit := by
    rw [hrecords]
    rfl
  dkg := by simp [hsession]
  policyViolation := by simp [hblocked]
  signingOps := rfl
  no_ceremony := hceremony
  reads := hreads

theorem handleDkg_accounts (s : ApiState) (limited : Bool) (key : Option JSString)
    (threshold totalParties : JSValue) (curveType : Option JSString)
    (draws : ApiDraws curve.CURVE_ORDER) :
    Accounts sha256 s ⟨limited, key, .dkg threshold totalParties curveType, draws⟩
      (handleDkg curve sha256 s threshold totalParties curveType draws) := by
  unfold handleDkg
  split
  · exact .read rfl rfl rfl rfl trivial
  next t n _ =>
    dsimp only
    split
    · exact ⟨rfl, rfl, rfl, rfl, rfl, trivial⟩
    next session hdkg =>
      have hrecord := executeDKG_record hdkg
      refine ⟨?_, rfl, rfl, rfl, rfl, trivial⟩
      simp [ApiState.append, recordsOf, hrecord.threshold_eq, hrecord.totalParties_eq, run]

theorem handleSign_accounts (s : ApiState) (limited : Bool) (key : Option JSString)
    (chainId amount : JSValue) (symbol : Option JSString) (toAddress : JSValue)
    (dropNodeId : Option JSString) (draws : ApiDraws curve.CURVE_ORDER) :
    Accounts sha256 s ⟨limited, key, .sign chainId amount symbol toAddress dropNodeId, draws⟩
      (handleSign curve sha256 platform s chainId amount symbol toAddress dropNodeId draws) := by
  unfold handleSign
  dsimp only
  split
  · exact ⟨rfl, rfl, rfl, rfl, rfl, trivial⟩
  · exact ⟨rfl, rfl, rfl, rfl, rfl, trivial⟩
  · exact ⟨rfl, rfl, rfl, rfl, rfl, trivial⟩
  · rw [executeThresholdSigning_not_found]
    exact ⟨rfl, rfl, rfl, rfl, rfl, trivial⟩

variable (curve sha256 platform) in
/-- **One request.** -/
theorem serve_accounts (expected : ApiKey) (s : ApiState) (call : ApiCall curve.CURVE_ORDER) :
    Accounts sha256 s call (serve curve sha256 platform expected s call) := by
  obtain ⟨limited, key, request, draws⟩ := call
  unfold serve
  split
  · cases request with
    | health => exact .read rfl rfl rfl rfl trivial
    | metrics => exact .read rfl rfl rfl rfl trivial
    | dkg threshold totalParties curveType =>
      exact handleDkg_accounts s limited key threshold totalParties curveType draws
    | sign chainId amount symbol toAddress dropNodeId =>
      exact handleSign_accounts s limited key chainId amount symbol toAddress dropNodeId draws
    | auditVerify => exact .read rfl rfl rfl rfl rfl
    | auditLogs limit => exact .read rfl rfl rfl rfl ⟨limit, rfl, rfl⟩
    | hsmStatus => exact .read rfl rfl rfl rfl trivial
    | hsmTamper => exact ⟨rfl, rfl, rfl, rfl, rfl, trivial⟩
  · unfold refusal
    split
    · exact .read (by cases request <;> rfl) rfl rfl rfl trivial
    · exact .read (by cases request <;> rfl) rfl rfl rfl trivial

theorem serve_refused {expected : ApiKey} (s : ApiState) {call : ApiCall curve.CURVE_ORDER}
    (h : admitted curve expected call = false) :
    serve curve sha256 platform expected s call = (s, refusal call) := by
  rw [serve, if_neg (by simp [h])]

/-! ## Runs -/

/-- **Runs.** The audit log grows by exactly the records of the answers, the counters count
them, no ceremony is ever answered, and the requests that the limiter or the check of the key
refuses leave the engines as they are: the others have the same answers without them. -/
theorem api_accounts (expected : ApiKey) (s : ApiState) (calls : List (ApiCall curve.CURVE_ORDER)) :
    let serve := serve curve sha256 platform expected
    let final := finalState serve s calls
    let log := transcript serve s calls
    final.audit.memoryChain.map AuditEntry.call = s.audit.memoryChain.map AuditEntry.call ++
        log.flatMap (fun entry => recordsOf entry.1 entry.2) ∧
      final.counters.dkg = s.counters.dkg + log.countP (fun entry => entry.2.isSession) ∧
      final.counters.policyViolation =
        s.counters.policyViolation + log.countP (fun entry => entry.2.isBlocked) ∧
      final.counters.signingOps = s.counters.signingOps ∧
      (∀ entry ∈ log, entry.2.isCeremony = false) ∧
      (∀ entry ∈ log, admitted curve expected entry.1 = false → entry.2 = refusal entry.1) ∧
      finalState serve s (calls.filter (admitted curve expected)) = final ∧
      transcript serve s (calls.filter (admitted curve expected)) =
        log.filter fun entry => admitted curve expected entry.1 := by
  intro serve final log
  have haccounts := serve_accounts curve sha256 platform expected
  have hskip : ∀ s call, admitted curve expected call = false → (serve s call).1 = s := by
    intro s call hrefused
    rw [show serve s call = _ from serve_refused s hrefused]
  refine ⟨?_, ?_, ?_, ?_, ?_, ?_, answers_filter hskip s calls⟩
  · apply log_transcript (fun s : ApiState => s.audit.memoryChain.map AuditEntry.call)
    intro s call
    rw [(haccounts s call).audit, calls_run]
  · exact count_transcript (fun s : ApiState => s.counters.dkg)
      (fun _ response => ApiResponse.isSession response) (fun s call => (haccounts s call).dkg) s
      calls
  · exact count_transcript (fun s : ApiState => s.counters.policyViolation)
      (fun _ response => ApiResponse.isBlocked response)
      (fun s call => (haccounts s call).policyViolation) s calls
  · exact run_invariant (fun s' : ApiState => s'.counters.signingOps = s.counters.signingOps) rfl
      (fun s' call h => (haccounts s' call).signingOps.trans h) calls
  · rintro ⟨call, response⟩ hentry
    obtain ⟨before, after, -, rfl⟩ := mem_transcript hentry
    exact (haccounts _ call).no_ceremony
  · rintro ⟨call, response⟩ hentry hrefused
    obtain ⟨before, after, -, rfl⟩ := mem_transcript hentry
    rw [show serve _ call = _ from serve_refused _ hrefused]

/-! ## The audit routes -/

variable (curve sha256 platform) in
/-- The audit chain at one time is a prefix of the chain at a later time. -/
theorem prefix_memoryChain (expected : ApiKey) (s : ApiState)
    (calls : List (ApiCall curve.CURVE_ORDER)) :
    s.audit.memoryChain <+:
      (finalState (serve curve sha256 platform expected) s calls).audit.memoryChain := by
  refine run_invariant (fun s' : ApiState => s.audit.memoryChain <+: s'.audit.memoryChain)
    (List.prefix_refl _) ?_ calls
  intro s' call hprefix
  rw [(serve_accounts curve sha256 platform expected s' call).audit]
  exact hprefix.trans (prefix_run _ _)

theorem intact_finalState (expected : ApiKey) {s : ApiState}
    (h : Intact sha256 s.audit.memoryChain) (calls : List (ApiCall curve.CURVE_ORDER)) :
    Intact sha256
      (finalState (serve curve sha256 platform expected) s calls).audit.memoryChain := by
  refine run_invariant (fun s' : ApiState => Intact sha256 s'.audit.memoryChain) h ?_ calls
  intro s' call hintact
  rw [(serve_accounts curve sha256 platform expected s' call).audit]
  exact hintact.run _

/-- The items of a part of an intact chain: each carries the hash of the one before it, which a
reader can compute. -/
structure Checkable (sha256 : Bytes → Digest) (items : List ListedItem) : Prop where
  linked : HashChain.Linked (fun item : ListedItem => item.currentHash)
    (fun item : ListedItem => item.previousHash) items
  recomputes : ∀ item ∈ items.tail, calculateHash sha256 item.index item.timestamp item.action
    item.actor item.details item.previousHash = item.currentHash

theorem Checkable.of_intact {entries : List AuditEntry} (h : Intact sha256 entries) :
    Checkable sha256 (entries.map toAuditLogItem) where
  linked := (List.isChain_map toAuditLogItem).mpr h.linked
  recomputes := by
    intro item hitem
    rw [← List.map_tail, List.mem_map] at hitem
    obtain ⟨entry, hentry, rfl⟩ := hitem
    exact h.recomputes entry hentry

theorem intact_drop {entries : List AuditEntry} (h : Intact sha256 entries) (k : ℕ) :
    Intact sha256 (entries.drop k) where
  linked := h.linked.drop k
  recomputes := by
    intro entry hentry
    rw [List.tail_drop] at hentry
    exact h.recomputes entry (List.drop_subset k _ (by simpa [List.drop_drop] using hentry))

/-- A limit that is a natural number lists so many entries at the end. -/
theorem getLogs_last (chain : List AuditEntry) {limit : JSString} {n : ℕ}
    (h : limitOrDefault limit = .finite n) :
    getLogs chain (limitOrDefault limit) =
      (chain.drop (chain.length - n)).map toAuditLogItem := by
  have hpos : n ≠ 0 := by
    rintro rfl
    unfold limitOrDefault at h
    split at h
    · cases h
    next hne => exact hne (Or.inr h)
  have htruncate : (JSNumber.finite (n : ℚ)).truncate = n := by simp [JSNumber.truncate]
  have hstart : sliceStart (limitOrDefault limit) chain.length = chain.length - n := by
    rw [h, sliceStart, htruncate, if_pos (by omega)]
    omega
  rw [getLogs, hstart]

/-- **What the audit routes answer.** The chain only grows; every listing is a piece of the one
chain that there is in the end, every report is about the chain of its time, and from a chain
that is valid at the start come listings that a reader can check and reports of a valid chain. -/
theorem log_answers (expected : ApiKey) (s : ApiState) (calls : List (ApiCall curve.CURVE_ORDER)) :
    let serve := serve curve sha256 platform expected
    let chain := (finalState serve s calls).audit.memoryChain
    s.audit.memoryChain <+: chain ∧ ∀ entry ∈ transcript serve s calls,
      ∃ m, s.audit.memoryChain.length ≤ m ∧ m ≤ chain.length ∧
        (∀ items, entry.2 = .logs items →
          (∃ limit, entry.1.request = .auditLogs limit ∧
            items = getLogs (chain.take m) (limitOrDefault limit) ∧
            ∀ n : ℕ, limitOrDefault limit = .finite n →
              items = ((chain.take m).drop (m - n)).map toAuditLogItem) ∧
          ((verifyChainIntegrity sha256 s.audit.memoryChain).isValid = true →
            Checkable sha256 items)) ∧
        ∀ report, entry.2 = .integrity report →
          report.totalBlocksChecked = m ∧
          report.merkleRoot = getMerkleRoot sha256 (chain.take m) ∧
          ((verifyChainIntegrity sha256 s.audit.memoryChain).isValid = true →
            report.isChainValid = true) := by
  intro serve chain
  refine ⟨prefix_memoryChain curve sha256 platform expected s calls, ?_⟩
  rintro ⟨call, response⟩ hentry
  obtain ⟨before, after, rfl, rfl⟩ := mem_transcript hentry
  set now := (finalState serve s before).audit.memoryChain with hnow
  have hprefix : now <+: chain := by
    rw [hnow, show chain = _ from congrArg (fun s : ApiState => s.audit.memoryChain)
      (run_append before (call :: after))]
    exact prefix_memoryChain curve sha256 platform expected (finalState serve s before)
      (call :: after)
  have htake : chain.take now.length = now := (List.prefix_iff_eq_take.mp hprefix).symm
  have hreads :=
    (serve_accounts curve sha256 platform expected (finalState serve s before) call).reads
  have hintact : (verifyChainIntegrity sha256 s.audit.memoryChain).isValid = true →
      Intact sha256 now := by
    intro hvalid
    exact intact_finalState expected (isValid_iff_intact.mp hvalid) before
  refine ⟨now.length, (prefix_memoryChain curve sha256 platform expected s before).length_le,
    hprefix.length_le, ?_, ?_⟩
  · intro items hitems
    rw [show (serve _ call).2 = _ from hitems] at hreads
    obtain ⟨limit, hrequest, rfl⟩ := hreads
    rw [htake]
    exact ⟨⟨limit, hrequest, rfl, fun n hn => getLogs_last now hn⟩,
      fun hvalid => .of_intact (intact_drop (hintact hvalid) _)⟩
  · intro report hreport
    rw [show (serve _ call).2 = _ from hreport] at hreads
    obtain rfl := hreads
    rw [htake]
    exact ⟨verifyChainIntegrity_totalBlocks now, rfl, fun hvalid =>
      isValid_iff_intact.mpr (hintact hvalid)⟩

end

end BioFire.Server
