import BioFire.Curve
import BioFire.InsertionMap
import BioFire.LagrangeCoefficient
import BioFire.Paillier
import Mathlib.Data.List.Range

/-!
# Distributed key generation (`src/lib/protocol/mpc_cmp.ts`)

The state of the module, `registerNodes` and `executeDKG`. Every node draws a
polynomial; a party's share is the sum of all polynomials at its 1-based
position.

* `totalShare_eq`: the evaluation loops compute that sum;
* `executeDKG_ok`: what a call that returns has stored and returned.
-/

namespace BioFire.Mpc

open Sharing

structure NodeConfig where
  id : JSString
  url : JSString
  publicKey : Option JSString

structure PolynomialCoefficients where
  coefficients : List ℤ
  commitments : List JSString

structure KeyShare where
  nodeId : JSString
  share : ℤ
  publicShare : JSString
  paillierPublicKey : Option PaillierPublicKey

inductive MPCPartyRole where
  | Client | BlindedEnclave | CoSigner
  deriving DecidableEq, Repr

inductive MPCPartyStatus where
  | ONLINE
  deriving DecidableEq, Repr

inductive DKGPhase where
  | COMPLETED
  deriving DecidableEq, Repr

structure MPCParty where
  id : JSString
  name : JSString
  role : MPCPartyRole
  status : MPCPartyStatus
  isEnclave : Bool
  publicPaillierN : JSString
  shareCommitment : JSString
  latencyMs : ℕ
  lastSeenAt : ℤ
  enclaveAttestationHash : JSString

structure DKGSession where
  sessionId : JSString
  curve : JSString
  threshold : ℕ
  totalParties : ℕ
  phase : DKGPhase
  masterPublicKey : JSString
  chainAddresses : List (JSString × JSString)
  parties : List MPCParty
  createdAt : ℤ
  updatedAt : ℤ
  completedAt : ℤ
  auditLogIds : List JSString

/-- The module state that key generation reads and writes. -/
structure DkgState where
  nodeRegistry : List NodeConfig
  dkgSessions : InsertionMap JSString DKGSession
  nodePaillierKeys : InsertionMap JSString PaillierKeyPair
  nodeShares : InsertionMap JSString (InsertionMap JSString ℤ)

/-- What one run of `executeDKG` draws; `coefficient i j` is the coefficient `j`
of node `i`. -/
structure DkgRandomness (q : ℤ) where
  sessionId : Bytes
  coefficient : ℕ → ℕ → Scalar q
  paillierKeys : ℕ → Except JSError PaillierKeyPair
  attestation : ℕ → Bytes

def registerNodes (state : DkgState) (nodes : List NodeConfig) : DkgState :=
  { state with nodeRegistry := nodes }

def generateSessionId (bytes : Bytes) : JSString := js "sess_" ++ bytesToHex bytes

/-- The registry with default nodes up to `totalParties`. -/
def padRegistry (nodeRegistry : List NodeConfig) (totalParties : ℕ) : List NodeConfig :=
  nodeRegistry ++ (List.range' nodeRegistry.length (totalParties - nodeRegistry.length)).map
    fun i => ⟨js "node-" ++ decimal (i + 1), js "http://localhost:" ++ decimal (3001 + i), none⟩

/-- The nodes that take part in a key generation. -/
def selectedNodes (state : DkgState) (totalParties : ℕ) : List NodeConfig :=
  (padRegistry state.nodeRegistry totalParties).take totalParties

section

variable {G : Type} [AddCommGroup G] [DecidableEq G] (curve : Curve G)

/-! ## Phase 1: polynomials -/

/-- The hexadecimal encoding of a point. -/
def pointHex (P : G) : Except JSError JSString := do
  return js "0x" ++ bytesToHex (← curve.toRawBytes P)

def coefficientList (threshold : ℕ) (coefficient : ℕ → Scalar curve.CURVE_ORDER) : List ℤ :=
  (List.range threshold).map fun j => (coefficient j).1

/-- One node's polynomial, with a commitment to every coefficient. -/
def nodePolynomial (threshold : ℕ) (coefficient : ℕ → Scalar curve.CURVE_ORDER) :
    Except JSError PolynomialCoefficients := do
  let coefficients := coefficientList curve threshold coefficient
  let commitments ← coefficients.mapM fun coeff => do
    pointHex curve (← curve.multiply curve.BASE coeff)
  return ⟨coefficients, commitments⟩

/-- `nodePolynomials` and `nodePaillier`. -/
structure Phase1 where
  nodePolynomials : InsertionMap JSString PolynomialCoefficients
  nodePaillier : InsertionMap JSString PaillierKeyPair

/-- The loop over the nodes; `nodePaillierKeys` keeps its entries when it throws. -/
def dkgPhase1 (threshold : ℕ) (random : DkgRandomness curve.CURVE_ORDER) :
    List (NodeConfig × ℕ) → Phase1 → InsertionMap JSString PaillierKeyPair →
      InsertionMap JSString PaillierKeyPair × Except JSError Phase1
  | [], phase1, nodePaillierKeys => (nodePaillierKeys, .ok phase1)
  | (node, i) :: rest, phase1, nodePaillierKeys =>
    match nodePolynomial curve threshold (random.coefficient i) with
    | .error e => (nodePaillierKeys, .error e)
    | .ok polynomial =>
      match random.paillierKeys i with
      | .error e => (nodePaillierKeys, .error e)
      | .ok paillierKeys =>
        dkgPhase1 threshold random rest
          ⟨phase1.nodePolynomials.set node.id polynomial,
            phase1.nodePaillier.set node.id paillierKeys⟩
          (nodePaillierKeys.set node.id paillierKeys)

/-! ## Phase 2: shares -/

/-- A polynomial at `nodeIndex`, with the current `value` and `power`. -/
def evaluateLoop (nodeIndex : ℤ) : List ℤ → ℤ → ℤ → ℤ
  | [], value, _ => value
  | c :: rest, value, power =>
    evaluateLoop nodeIndex rest ((value + c * power).tmod curve.CURVE_ORDER)
      ((power * nodeIndex).tmod curve.CURVE_ORDER)

/-- The sum of all polynomials at `nodeIndex`, given by their coefficients. -/
def totalShare (polynomials : List (List ℤ)) (nodeIndex : ℤ) : ℤ :=
  polynomials.foldl (fun total coefficients =>
    (total + evaluateLoop curve nodeIndex coefficients 0 1).tmod curve.CURVE_ORDER) 0

/-- `shares` and `allShares`. -/
structure Phase2 where
  shares : InsertionMap JSString KeyShare
  allShares : InsertionMap JSString ℤ

def dkgPhase2 (phase1 : Phase1) : List (NodeConfig × ℕ) → Phase2 → Except JSError Phase2
  | [], phase2 => .ok phase2
  | (node, i) :: rest, phase2 => do
    let share := totalShare curve
      (phase1.nodePolynomials.values.map PolynomialCoefficients.coefficients) ((i + 1 : ℕ) : ℤ)
    let publicShare ← curve.multiply curve.BASE share
    let keyShare : KeyShare := {
      nodeId := node.id
      share
      publicShare := ← pointHex curve publicShare
      paillierPublicKey := (phase1.nodePaillier.get node.id).map PaillierKeyPair.publicKey }
    dkgPhase2 phase1 rest
      ⟨phase2.shares.set node.id keyShare, phase2.allShares.set node.id share⟩

/-! ## The session -/

/-- The sum of the constant terms, as a point. -/
def groupPublicKey : List (List ℤ) → G → Except JSError G
  | [], P => .ok P
  | coefficients :: rest, P =>
    match coefficients with
    -- `multiply(undefined)`
    | [] => .error externalError
    | a₀ :: _ => do groupPublicKey rest (P + (← curve.multiply curve.BASE a₀))

/-- One entry of `parties`. -/
def partyOf (phase1 : Phase1) (phase2 : Phase2) (attestation : ℕ → Bytes) (now : ℤ)
    (node : NodeConfig) (i : ℕ) : MPCParty where
  id := node.id
  name := js "Node " ++ decimal (i + 1)
  role := if i = 0 then .Client else if i = 1 then .BlindedEnclave else .CoSigner
  status := .ONLINE
  isEnclave := i = 1
  publicPaillierN := (match phase1.nodePaillier.get node.id with
    | none => js "undefined"
    | some keys => (toString16 keys.publicKey.n).take 14) ++ js "..."
  shareCommitment := (match phase2.shares.get node.id with
    | none => js "undefined"
    | some share => share.publicShare.take 16) ++ js "..."
  latencyMs := 10 + i * 5
  lastSeenAt := now
  enclaveAttestationHash := js "0x" ++ bytesToHex (attestation i)

def executeDKG (state : DkgState) (threshold totalParties : ℕ) (curveType : JSString)
    (random : DkgRandomness curve.CURVE_ORDER) (now : ℤ) :
    DkgState × Except JSError DKGSession :=
  let sessionId := generateSessionId random.sessionId
  let nodeRegistry := padRegistry state.nodeRegistry totalParties
  let nodes := (selectedNodes state totalParties).zipIdx
  match dkgPhase1 curve threshold random nodes ⟨.empty, .empty⟩ state.nodePaillierKeys with
  | (nodePaillierKeys, .error e) => ({ state with nodeRegistry, nodePaillierKeys }, .error e)
  | (nodePaillierKeys, .ok phase1) =>
    match dkgPhase2 curve phase1 nodes ⟨.empty, .empty⟩ with
    | .error e => ({ state with nodeRegistry, nodePaillierKeys }, .error e)
    | .ok phase2 =>
      let nodeShares := state.nodeShares.set sessionId phase2.allShares
      let polynomials := phase1.nodePolynomials.values.map PolynomialCoefficients.coefficients
      match (do pointHex curve (← groupPublicKey curve polynomials 0)) with
      | .error e => ({ state with nodeRegistry, nodePaillierKeys, nodeShares }, .error e)
      | .ok masterPublicKey =>
        let session : DKGSession := {
          sessionId
          curve := curveType
          threshold
          totalParties
          phase := .COMPLETED
          masterPublicKey
          chainAddresses := []
          parties := nodes.map fun (node, i) =>
            partyOf phase1 phase2 random.attestation now node i
          createdAt := now
          updatedAt := now
          completedAt := now
          auditLogIds := [] }
        ({ nodeRegistry, nodePaillierKeys, nodeShares,
           dkgSessions := state.dkgSessions.set sessionId session }, .ok session)

end

/-! ## The shared polynomial -/

section

variable {G : Type} [AddCommGroup G] {curve : Curve G}

theorem selectedNodes_length (state : DkgState) (totalParties : ℕ) :
    (selectedNodes state totalParties).length = totalParties := by
  simp only [selectedNodes, padRegistry, List.length_take, List.length_append, List.length_map,
    List.length_range']
  omega

/-- The polynomial of a list of coefficients. -/
noncomputable def polynomialOf (n : ℕ) (coefficients : List ℤ) : Polynomial (ZMod n) :=
  ofCoeffs (coefficients.map (Int.cast : ℤ → ZMod n))

/-- The sum of the nodes' polynomials. -/
noncomputable def aggregate (n : ℕ) (polynomials : List (List ℤ)) : Polynomial (ZMod n) :=
  (polynomials.map (polynomialOf n)).sum

theorem polynomialOf_cons (n : ℕ) (c : ℤ) (cs : List ℤ) :
    polynomialOf n (c :: cs) = Polynomial.C (c : ZMod n) + Polynomial.X * polynomialOf n cs := rfl

theorem aggregate_cons (n : ℕ) (cs : List ℤ) (polynomials : List (List ℤ)) :
    aggregate n (cs :: polynomials) = polynomialOf n cs + aggregate n polynomials := by
  rw [aggregate, List.map_cons, List.sum_cons, aggregate]

/-- The aggregate of polynomials with `t` coefficients has `t` coefficients. -/
theorem degree_aggregate_lt {n t : ℕ} {polynomials : List (List ℤ)}
    (h : ∀ cs ∈ polynomials, cs.length = t) : (aggregate n polynomials).degree < t := by
  induction polynomials with
  | nil => simp [aggregate]
  | cons cs polynomials ih =>
    rw [aggregate_cons]
    refine (Polynomial.degree_add_le _ _).trans_lt (max_lt ?_ ?_)
    · have hdeg := degree_ofCoeffs_lt (cs.map (Int.cast : ℤ → ZMod n))
      rwa [List.length_map, h cs List.mem_cons_self] at hdeg
    · exact ih fun cs' hcs' => h cs' (List.mem_cons_of_mem cs hcs')

theorem evaluateLoop_cast (x : ℤ) (cs : List ℤ) (value power : ℤ) :
    ((evaluateLoop curve x cs value power : ℤ) : ZMod curve.n) =
      value + power * (polynomialOf curve.n cs).eval (x : ZMod curve.n) := by
  induction cs generalizing value power with
  | nil => simp [evaluateLoop, polynomialOf]
  | cons c cs ih =>
    rw [evaluateLoop, ih, cast_tmod, cast_tmod, polynomialOf_cons]
    simp only [Polynomial.eval_add, Polynomial.eval_mul, Polynomial.eval_C, Polynomial.eval_X]
    push_cast
    ring

theorem evaluateLoop_nonneg {x : ℤ} (hx : 0 ≤ x) {cs : List ℤ} (hcs : ∀ c ∈ cs, 0 ≤ c)
    {value power : ℤ} (hv : 0 ≤ value) (hp : 0 ≤ power) :
    0 ≤ evaluateLoop curve x cs value power := by
  induction cs generalizing value power with
  | nil => exact hv
  | cons c cs ih =>
    have hc := hcs c List.mem_cons_self
    exact ih (fun c' hc' => hcs c' (List.mem_cons_of_mem c hc'))
      (Int.tmod_nonneg _ (by positivity)) (Int.tmod_nonneg _ (by positivity))

/-- **The evaluation loops** compute the aggregate at the node's index. -/
theorem totalShare_eq {x : ℤ} (hx : 0 ≤ x) {polynomials : List (List ℤ)}
    (hpos : ∀ cs ∈ polynomials, ∀ c ∈ cs, 0 ≤ c) :
    totalShare curve polynomials x =
      ((aggregate curve.n polynomials).eval (x : ZMod curve.n)).val := by
  have hloop : ∀ (l : List (List ℤ)) (total : ℤ), (∀ cs ∈ l, ∀ c ∈ cs, 0 ≤ c) → 0 ≤ total →
      total < curve.n →
      l.foldl (fun total coefficients =>
        (total + evaluateLoop curve x coefficients 0 1).tmod curve.CURVE_ORDER) total =
      ((total : ZMod curve.n) + (aggregate curve.n l).eval (x : ZMod curve.n)).val := by
    intro l
    induction l with
    | nil =>
      intro total _ h₀ h
      simpa [aggregate] using eq_val_of_cast h₀ h rfl
    | cons cs l ih =>
      intro total hl h₀ h
      have hval : 0 ≤ evaluateLoop curve x cs 0 1 :=
        evaluateLoop_nonneg hx (hl cs List.mem_cons_self) le_rfl (zero_le_one' ℤ)
      have hnonneg := Int.tmod_nonneg (curve.n : ℤ) (add_nonneg h₀ hval)
      rw [List.foldl_cons, ih _ (fun cs' hcs' => hl cs' (List.mem_cons_of_mem cs hcs')) hnonneg
        (Int.tmod_lt_of_pos _ order_pos), cast_tmod, aggregate_cons, Polynomial.eval_add]
      push_cast
      rw [evaluateLoop_cast]
      simp [add_assoc]
  have h := hloop polynomials 0 hpos le_rfl order_pos
  rwa [Int.cast_zero, zero_add] at h

theorem groupPublicKey_ok {polynomials : List (List ℤ)} {P Q : G}
    (h : groupPublicKey curve polynomials P = .ok Q) :
    Q = P + curve.point ((aggregate curve.n polynomials).eval 0) := by
  induction polynomials generalizing P with
  | nil =>
    obtain rfl : P = Q := Except.ok.inj h
    simp [aggregate, (curve.point_eq_zero_iff 0).mpr rfl]
  | cons cs polynomials ih =>
    cases cs with
    | nil => cases h
    | cons a₀ cs =>
      cases hmul : curve.multiply curve.BASE a₀ with
      | error e => simp [groupPublicKey, hmul, bind, Except.bind] at h
      | ok A =>
        obtain ⟨-, -, rfl⟩ := curve.multiply_eq_ok hmul
        simp only [groupPublicKey, hmul, bind, Except.bind] at h
        rw [ih h, aggregate_cons, Polynomial.eval_add, curve.point_add, curve.zsmul_BASE, add_assoc]
        congr 2
        rw [polynomialOf, List.map_cons, eval_zero_ofCoeffs, List.headD_cons]

/-! ## A call that returns -/

variable [DecidableEq G]

/-- The coefficients of all nodes. -/
def partyPolynomials (curve : Curve G) (threshold totalParties : ℕ)
    (coefficient : ℕ → ℕ → Scalar curve.CURVE_ORDER) : List (List ℤ) :=
  (List.range totalParties).map fun i => coefficientList curve threshold (coefficient i)

theorem dkgPhase1_ok {threshold : ℕ} {random : DkgRandomness curve.CURVE_ORDER}
    {l : List (NodeConfig × ℕ)} {phase1 phase1' : Phase1}
    {keys keys' : InsertionMap JSString PaillierKeyPair}
    (h : dkgPhase1 curve threshold random l phase1 keys = (keys', .ok phase1')) :
    ∃ ps : List (JSString × PolynomialCoefficients),
      ps.map Prod.fst = l.map (fun e => e.1.id) ∧
      ps.map (fun e => e.2.coefficients) =
        l.map (fun e => coefficientList curve threshold (random.coefficient e.2)) ∧
      phase1'.nodePolynomials = phase1.nodePolynomials.setAll ps := by
  induction l generalizing phase1 keys with
  | nil =>
    obtain ⟨rfl, hphase⟩ := Prod.mk.inj h
    obtain rfl := Except.ok.inj hphase
    exact ⟨[], rfl, rfl, rfl⟩
  | cons e l ih =>
    obtain ⟨node, i⟩ := e
    rw [dkgPhase1] at h
    cases hpoly : nodePolynomial curve threshold (random.coefficient i) with
    | error err => rw [hpoly] at h; cases h
    | ok polynomial =>
      cases hkeys : random.paillierKeys i with
      | error err => rw [hpoly, hkeys] at h; cases h
      | ok paillierKeys =>
        rw [hpoly, hkeys] at h
        obtain ⟨commitments, -, hcoeff⟩ := bind_eq_ok hpoly
        obtain ⟨ps, hids, hcs, hmap⟩ := ih h
        obtain rfl := Except.ok.inj hcoeff
        exact ⟨(node.id, ⟨_, commitments⟩) :: ps, by simp [hids], by simp [hcs], hmap⟩

theorem dkgPhase2_ok {phase1 : Phase1} {l : List (NodeConfig × ℕ)} {phase2 phase2' : Phase2}
    (h : dkgPhase2 curve phase1 l phase2 = .ok phase2') :
    phase2'.allShares = phase2.allShares.setAll (l.map fun e => (e.1.id, totalShare curve
        (phase1.nodePolynomials.values.map PolynomialCoefficients.coefficients)
        ((e.2 + 1 : ℕ) : ℤ))) ∧
      ∀ e ∈ l, 1 ≤ totalShare curve
          (phase1.nodePolynomials.values.map PolynomialCoefficients.coefficients)
          ((e.2 + 1 : ℕ) : ℤ) ∧
        totalShare curve (phase1.nodePolynomials.values.map PolynomialCoefficients.coefficients)
          ((e.2 + 1 : ℕ) : ℤ) < curve.n := by
  induction l generalizing phase2 with
  | nil =>
    obtain rfl := Except.ok.inj h
    exact ⟨rfl, fun e he => by cases he⟩
  | cons e l ih =>
    obtain ⟨node, i⟩ := e
    rw [dkgPhase2] at h
    obtain ⟨publicShare, hmul, h⟩ := bind_eq_ok h
    obtain ⟨hex, -, h⟩ := bind_eq_ok h
    obtain ⟨hmap, hrange⟩ := ih h
    obtain ⟨h₁, hn, -⟩ := curve.multiply_eq_ok hmul
    refine ⟨hmap, fun e he => ?_⟩
    rcases List.mem_cons.mp he with rfl | he
    · exact ⟨h₁, hn⟩
    · exact hrange e he

/-- What a call of `executeDKG` that returned `session` and left `state'` has done. -/
structure Executed (curve : Curve G) (state state' : DkgState) (threshold totalParties : ℕ)
    (random : DkgRandomness curve.CURVE_ORDER) (session : DKGSession) : Prop where
  threshold_eq : session.threshold = threshold
  parties_ids : session.parties.map MPCParty.id =
    (selectedNodes state totalParties).map NodeConfig.id
  shares : ∃ allShares, state'.nodeShares.get session.sessionId = some allShares ∧
    ∀ i (h : i < session.parties.length), allShares.get session.parties[i].id =
      some (totalShare curve (partyPolynomials curve threshold totalParties random.coefficient)
        ((i + 1 : ℕ) : ℤ))
  share_range : ∀ i < totalParties,
    1 ≤ totalShare curve (partyPolynomials curve threshold totalParties random.coefficient)
      ((i + 1 : ℕ) : ℤ) ∧
    totalShare curve (partyPolynomials curve threshold totalParties random.coefficient)
      ((i + 1 : ℕ) : ℤ) < curve.n
  secret_ne_zero : (aggregate curve.n
    (partyPolynomials curve threshold totalParties random.coefficient)).eval 0 ≠ 0
  masterPublicKey_eq : session.masterPublicKey = js "0x" ++ bytesToHex (curve.encode (curve.point
    ((aggregate curve.n
      (partyPolynomials curve threshold totalParties random.coefficient)).eval 0)))

theorem zipIdx_map_fst {α β : Type} (f : α → β) (l : List α) :
    l.zipIdx.map (fun e => f e.1) = l.map f := by
  conv_rhs => rw [← List.zipIdx_map_fst 0 l, List.map_map]
  rfl

theorem zipIdx_map_snd {α β : Type} (f : ℕ → β) (l : List α) :
    l.zipIdx.map (fun e => f e.2) = (List.range l.length).map f := by
  rw [List.range_eq_range', ← List.zipIdx_map_snd 0 l, List.map_map]
  rfl

/-- What a call that returns has gone through, and what it has set. -/
theorem executeDKG_phases {state state' : DkgState} {threshold totalParties : ℕ}
    {curveType : JSString} {random : DkgRandomness curve.CURVE_ORDER} {now : ℤ}
    {session : DKGSession}
    (h : executeDKG curve state threshold totalParties curveType random now =
      (state', .ok session)) :
    ∃ keys phase1 phase2 masterPublicKey,
      dkgPhase1 curve threshold random (selectedNodes state totalParties).zipIdx ⟨.empty, .empty⟩
          state.nodePaillierKeys = (keys, .ok phase1) ∧
        dkgPhase2 curve phase1 (selectedNodes state totalParties).zipIdx ⟨.empty, .empty⟩ =
          .ok phase2 ∧
        (do pointHex curve (← groupPublicKey curve
          (phase1.nodePolynomials.values.map PolynomialCoefficients.coefficients) 0)) =
            .ok masterPublicKey ∧
        state'.nodeShares = state.nodeShares.set session.sessionId phase2.allShares ∧
        state'.dkgSessions = state.dkgSessions.set session.sessionId session ∧
        session.threshold = threshold ∧ session.totalParties = totalParties ∧
        session.phase = .COMPLETED ∧ session.masterPublicKey = masterPublicKey ∧
        session.parties = (selectedNodes state totalParties).zipIdx.map fun e =>
          partyOf phase1 phase2 random.attestation now e.1 e.2 := by
  rcases hp₁ : dkgPhase1 curve threshold random (selectedNodes state totalParties).zipIdx
    ⟨.empty, .empty⟩ state.nodePaillierKeys with ⟨keys, e | phase1⟩
  · simp [executeDKG, hp₁] at h
  cases hp₂ : dkgPhase2 curve phase1 (selectedNodes state totalParties).zipIdx
    ⟨.empty, .empty⟩ with
  | error e => simp [executeDKG, hp₁, hp₂] at h
  | ok phase2 =>
    cases hpk : (do pointHex curve (← groupPublicKey curve
      (phase1.nodePolynomials.values.map PolynomialCoefficients.coefficients) 0) :
        Except JSError JSString) with
    | error e => simp [executeDKG, hp₁, hp₂, hpk] at h
    | ok masterPublicKey =>
      simp only [executeDKG, hp₁, hp₂, hpk, Prod.mk.injEq, Except.ok.injEq] at h
      obtain ⟨rfl, rfl⟩ := h
      exact ⟨keys, phase1, phase2, masterPublicKey, rfl, hp₂, hpk, rfl, rfl, rfl, rfl, rfl, rfl,
        rfl⟩

theorem partyOf_ids (nodes : List NodeConfig) (phase1 : Phase1) (phase2 : Phase2)
    (attestation : ℕ → Bytes) (now : ℤ) :
    (nodes.zipIdx.map fun e => partyOf phase1 phase2 attestation now e.1 e.2).map MPCParty.id =
      nodes.map NodeConfig.id := by
  rw [List.map_map]
  exact zipIdx_map_fst NodeConfig.id nodes

/-- **A call that returns** has shared the sum of the nodes' polynomials. -/
theorem executeDKG_ok {state state' : DkgState} {threshold totalParties : ℕ} {curveType : JSString}
    {random : DkgRandomness curve.CURVE_ORDER} {now : ℤ} {session : DKGSession}
    (hids : ((selectedNodes state totalParties).map NodeConfig.id).Nodup)
    (h : executeDKG curve state threshold totalParties curveType random now =
      (state', .ok session)) :
    Executed curve state state' threshold totalParties random session := by
  obtain ⟨keys, phase1, phase2, masterPublicKey, hp₁, hp₂, hpk, hnodeShares, -, hthreshold, -, -,
    hmaster, hparties⟩ := executeDKG_phases h
  obtain ⟨ps, hpsids, hpscs, hpsmap⟩ := dkgPhase1_ok hp₁
  rw [zipIdx_map_fst] at hpsids
  rw [zipIdx_map_snd fun i => coefficientList curve threshold (random.coefficient i),
    selectedNodes_length] at hpscs
  have hpolys : phase1.nodePolynomials.values.map PolynomialCoefficients.coefficients =
      partyPolynomials curve threshold totalParties random.coefficient := by
    rw [hpsmap, InsertionMap.values, InsertionMap.entries_setAll_empty (by rw [hpsids]; exact hids),
      List.map_map, partyPolynomials, ← hpscs]
    rfl
  obtain ⟨hshares, hrange⟩ := dkgPhase2_ok hp₂
  rw [hpolys] at hshares hrange hpk
  obtain ⟨P, hP, hhex⟩ := bind_eq_ok hpk
  obtain ⟨bytes, hbytes, hhex⟩ := bind_eq_ok hhex
  obtain ⟨hP₀, rfl⟩ := curve.toRawBytes_eq_ok hbytes
  have hgroup := groupPublicKey_ok hP
  rw [zero_add] at hgroup
  rw [hgroup] at hP₀ hhex
  have hparty : ∀ i (h : i < (selectedNodes state totalParties).length),
      ((selectedNodes state totalParties)[i], i) ∈ (selectedNodes state totalParties).zipIdx := by
    intro i h
    rw [List.mem_zipIdx_iff_getElem?]
    exact List.getElem?_eq_getElem h
  refine ⟨hthreshold, ?_, ⟨phase2.allShares, ?_, fun i hi => ?_⟩, fun i hi => ?_,
    fun hzero => hP₀ ((curve.point_eq_zero_iff _).mpr hzero), ?_⟩
  · rw [hparties]
    exact partyOf_ids _ phase1 phase2 _ now
  · rw [hnodeShares]
    exact InsertionMap.get_set_self _ _ _
  · have hi' : i < (selectedNodes state totalParties).length := by simpa [hparties] using hi
    rw [InsertionMap.get_eq_some_iff, hshares, InsertionMap.entries_setAll_empty, List.mem_map]
    · exact ⟨_, hparty i hi', by simp [hparties, partyOf]⟩
    · rw [List.map_map]
      exact (zipIdx_map_fst NodeConfig.id _).symm ▸ hids
  · have hi' : i < (selectedNodes state totalParties).length := by
      rw [selectedNodes_length]
      exact hi
    exact hrange _ (hparty i hi')
  · rw [hmaster]
    exact (Except.ok.inj hhex).symm

/-- What a call of `executeDKG` that returned `session` has written, whatever the ids are. -/
structure Recorded (curve : Curve G) (state state' : DkgState) (threshold totalParties : ℕ)
    (session : DKGSession) : Prop where
  threshold_eq : session.threshold = threshold
  totalParties_eq : session.totalParties = totalParties
  phase_eq : session.phase = .COMPLETED
  parties_ids : session.parties.map MPCParty.id =
    (selectedNodes state totalParties).map NodeConfig.id
  dkgSessions_eq : state'.dkgSessions = state.dkgSessions.set session.sessionId session
  nodeShares_eq : ∃ polynomials, state'.nodeShares = state.nodeShares.set session.sessionId
    (InsertionMap.empty.setAll ((selectedNodes state totalParties).zipIdx.map fun e =>
      (e.1.id, totalShare curve polynomials ((e.2 + 1 : ℕ) : ℤ))))

theorem executeDKG_record {state state' : DkgState} {threshold totalParties : ℕ}
    {curveType : JSString} {random : DkgRandomness curve.CURVE_ORDER} {now : ℤ}
    {session : DKGSession}
    (h : executeDKG curve state threshold totalParties curveType random now =
      (state', .ok session)) : Recorded curve state state' threshold totalParties session := by
  obtain ⟨keys, phase1, phase2, masterPublicKey, -, hp₂, -, hnodeShares, hsessions, hthreshold,
    htotal, hphase, -, hparties⟩ := executeDKG_phases h
  refine ⟨hthreshold, htotal, hphase, ?_, hsessions,
    phase1.nodePolynomials.values.map PolynomialCoefficients.coefficients, ?_⟩
  · rw [hparties]
    exact partyOf_ids _ phase1 phase2 _ now
  · rw [hnodeShares, ← (dkgPhase2_ok hp₂).1]

theorem executeDKG_nodeRegistry (state : DkgState) (threshold totalParties : ℕ)
    (curveType : JSString) (random : DkgRandomness curve.CURVE_ORDER) (now : ℤ) :
    (executeDKG curve state threshold totalParties curveType random now).1.nodeRegistry =
      padRegistry state.nodeRegistry totalParties := by
  unfold executeDKG
  dsimp only
  split
  · rfl
  · split
    · rfl
    · split <;> rfl

end

end BioFire.Mpc
