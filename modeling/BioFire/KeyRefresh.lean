import BioFire.BigIntText
import BioFire.BinarySerializer
import BioFire.KeySharing
import Mathlib.Data.List.TakeWhile

/-!
# Key refresh (`src/lib/protocol/key_refresh_engine.ts`)

One engine and its `executeRefresh`. A call is given what it draws, the answers
of the transport and the new Paillier keys.

* `executeRefresh_ok`: a call that returns has added its own zero polynomial at
  its own index to its share, and nothing else;
* `refresh_preserves_iff`: what this means for the key that the shares combine to.
-/

namespace BioFire.KeyRefresh

open Mpc Sharing

/-- A `SecureBigInt`; `none` once it is released. -/
structure SecureBigInt where
  contents : Option ℤ

namespace SecureBigInt

def create (value : ℤ) : SecureBigInt := ⟨some value⟩

/-- The getter `value`. -/
def value (s : SecureBigInt) : Except JSError ℤ :=
  match s.contents with
  | none => .error (plainError (js "SecureBigInt: Attempted access after release"))
  | some v => .ok v

def isReleased (s : SecureBigInt) : Bool := s.contents.isNone

def release (_ : SecureBigInt) : SecureBigInt := ⟨none⟩

end SecureBigInt

structure RefreshZKP where
  commitmentR : JSString
  challengeE : JSString
  responseZ : JSString

structure SubSharePackage where
  fromNodeId : JSString
  toNodeId : JSString
  subShare : JSString
  commitment : Option JSString
  proof : RefreshZKP
  epoch : ℕ

structure RefreshResult where
  success : Bool
  newEpoch : ℕ
  newShare : SecureBigInt
  newPaillierKeys : PaillierKeyPair
  masterPublicKeyUnchanged : Bool
  zeroizedOldShare : Bool
  faultyNodes : List JSString

structure KeyRefreshEngine where
  nodeId : JSString
  threshold : ℕ
  totalParties : ℕ
  currentShare : Option SecureBigInt
  currentPaillier : Option PaillierKeyPair
  currentEpoch : ℕ

/-- What one call of `executeRefresh` draws and is told; `nonce k` and `send k`
belong to the peer at position `k` of `connectedPeers`. -/
structure RefreshRun (q : ℤ) where
  connectedPeers : List JSString
  coefficient : ℕ → Except JSError (Scalar q)
  nonce : ℕ → Except JSError (Scalar q)
  send : ℕ → Except JSError Unit
  paillierKeys : Except JSError PaillierKeyPair

/-- The constructor and `initialize`. -/
def initializeEngine (nodeId : JSString) (threshold totalParties : ℕ) (share : SecureBigInt)
    (paillierKeys : PaillierKeyPair) (epoch : ℕ) : KeyRefreshEngine where
  nodeId
  threshold
  totalParties
  currentShare := some share
  currentPaillier := some paillierKeys
  currentEpoch := epoch

/-! ## The index of a node -/

/-- `peerId.match(/node-(\d+)/)`: the digits after the first `node-` that has some. -/
def matchNode : JSString → Option JSString
  | [] => none
  | c :: rest =>
    let digits := ((c :: rest).drop 5).takeWhile isDigit
    if (js "node-").isPrefixOf (c :: rest) && !digits.isEmpty then some digits
    else matchNode rest

def getPeerIndex (peerId : JSString) : JSNumber :=
  match matchNode peerId with
  | some digits => .ofRat (digitsValue digits)
  | none => .ofInt (-1)

section

variable {G : Type} [AddCommGroup G] [DecidableEq G] (curve : Curve G) (sha256 : Bytes → Digest)

/-! ## Phase 1: the zero polynomial -/

/-- `coeffs` and `commitments`. The constant coefficient is zero and not listed. -/
def zeroPolynomial (threshold : ℕ) (coefficient : ℕ → Except JSError (Scalar curve.CURVE_ORDER)) :
    Except JSError (List (ℤ × JSString)) :=
  (List.range (threshold - 1)).mapM fun j => do
    let coeff ← coefficient j
    let commitment ← curve.multiply curve.BASE coeff.1
    return (coeff.1, ← pointHex curve commitment)

/-! ## Phase 2: sub-shares -/

/-- The hashed text of a proof. -/
def challengeInput (R C : Bytes) (nodeId : JSString) (epoch : ℕ) : JSString :=
  bytesToHex R ++ js ":" ++ bytesToHex C ++ js ":" ++ nodeId ++ js ":" ++ decimal epoch

/-- A scalar as it is sent. -/
def scalarHex (k : ℤ) : JSString := js "0x" ++ padStart64 (toString16 k)

def generateSubShareZKP (engine : KeyRefreshEngine) (subShare : ℤ)
    (nonce : Except JSError (Scalar curve.CURVE_ORDER)) : Except JSError RefreshZKP := do
  let r ← nonce
  let R ← curve.multiply curve.BASE r.1
  let C ← curve.multiply curve.BASE subShare
  let bytesR ← curve.toRawBytes R
  let bytesC ← curve.toRawBytes C
  let hash := sha256 (textEncode (challengeInput bytesR bytesC engine.nodeId engine.currentEpoch))
  let e := (bytesToBigInt hash.1).tmod curve.CURVE_ORDER
  let z := (r.1 + e * subShare).tmod curve.CURVE_ORDER
  return ⟨js "0x" ++ bytesToHex bytesR, scalarHex e, scalarHex z⟩

/-- The polynomial without constant coefficient at an index. -/
def subShareAt (coeffs : List ℤ) (peerIndex : ℤ) : ℤ :=
  evaluateLoop curve peerIndex coeffs 0 peerIndex

def subSharePackage (engine : KeyRefreshEngine) (newEpoch : ℕ) (polynomial : List (ℤ × JSString))
    (peerId : JSString) (nonce : Except JSError (Scalar curve.CURVE_ORDER)) :
    Except JSError SubSharePackage := do
  let peerIndex ← bigintOfNumber (getPeerIndex peerId)
  let subShare := subShareAt curve (polynomial.map Prod.fst) peerIndex
  let zkp ← generateSubShareZKP curve sha256 engine subShare nonce
  return {
    fromNodeId := engine.nodeId
    toNodeId := peerId
    subShare := scalarHex subShare
    commitment := (polynomial.map Prod.snd)[0]?
    proof := zkp
    epoch := newEpoch }

/-- The record that is packed. -/
def packageRecord (pkg : SubSharePackage) : JSRecord :=
  [(js "fromNodeId", .string pkg.fromNodeId),
    (js "toNodeId", .string pkg.toNodeId),
    (js "subShare", .string pkg.subShare),
    (js "commitment", match pkg.commitment with
      | none => .undefined
      | some commitment => .string commitment),
    (js "proofR", .string pkg.proof.commitmentR),
    (js "proofE", .string pkg.proof.challengeE),
    (js "proofZ", .string pkg.proof.responseZ),
    (js "epoch", .number (.ofInt pkg.epoch))]

/-- The loop over the peers. Peers without an index are skipped. -/
def sendSubShares (engine : KeyRefreshEngine) (newEpoch : ℕ) (polynomial : List (ℤ × JSString))
    (run : RefreshRun curve.CURVE_ORDER) : List (JSString × ℕ) → Except JSError (List SubSharePackage)
  | [] => .ok []
  | (peerId, k) :: rest =>
    if getPeerIndex peerId = .ofInt (-1) then
      sendSubShares engine newEpoch polynomial run rest
    else do
      let pkg ← subSharePackage curve sha256 engine newEpoch polynomial peerId (run.nonce k)
      let _ ← BinarySerializer.pack sha256 (js "KEY_REFRESH_SUBSHARE") (packageRecord pkg)
      run.send k
      return pkg :: (← sendSubShares engine newEpoch polynomial run rest)

/-! ## Phase 3: what is received -/

/-- The sub-share from a peer is a placeholder, zero. -/
def receiveSubShare (engine : KeyRefreshEngine) (_peerId : JSString) (_epoch : ℕ) :
    Except JSError (Option ℤ) :=
  if getPeerIndex engine.nodeId = .ofInt (-1) then .ok none else .ok (some 0)

/-- `receivedSubShares` and `faultyNodes`. -/
def collectSubShares (engine : KeyRefreshEngine) (newEpoch : ℕ) :
    List JSString → InsertionMap JSString ℤ → List JSString → InsertionMap JSString ℤ × List JSString
  | [], received, faultyNodes => (received, faultyNodes)
  | peerId :: rest, received, faultyNodes =>
    match receiveSubShare engine peerId newEpoch with
    | .error _ => collectSubShares engine newEpoch rest received (faultyNodes ++ [peerId])
    | .ok none => collectSubShares engine newEpoch rest received faultyNodes
    | .ok (some subShare) =>
      collectSubShares engine newEpoch rest (received.set peerId subShare) faultyNodes

/-! ## Phase 4: the new share -/

def addSubShares (received : List ℤ) (share : ℤ) : ℤ :=
  received.foldl (fun value subShare => (value + subShare).tmod curve.CURVE_ORDER) share

def newShareValue (engine : KeyRefreshEngine) (coeffs received : List ℤ) (share : SecureBigInt) :
    Except JSError ℤ := do
  let value := addSubShares curve received (← share.value)
  if getPeerIndex engine.nodeId = .ofInt (-1) then return value
  else
    let selfIndex ← bigintOfNumber (getPeerIndex engine.nodeId)
    return (value + subShareAt curve coeffs selfIndex).tmod curve.CURVE_ORDER

/-- The placeholder for the check of the master public key. -/
def verifyMasterPublicKeyInvariant (_engine : KeyRefreshEngine) : Bool := true

/-- `executeRefresh`, run without interruption. The released coefficients and the
old Paillier key are reachable from nowhere in the engine. -/
def executeRefresh (engine : KeyRefreshEngine) (run : RefreshRun curve.CURVE_ORDER) :
    KeyRefreshEngine × Except JSError RefreshResult :=
  match engine.currentShare, engine.currentPaillier with
  | some share, some _ =>
    let newEpoch := engine.currentEpoch + 1
    let phases : Except JSError (List ℤ) := do
      let polynomial ← zeroPolynomial curve engine.threshold run.coefficient
      let _ ← sendSubShares curve sha256 engine newEpoch polynomial run run.connectedPeers.zipIdx
      return polynomial.map Prod.fst
    match phases with
    | .error e => (engine, .error e)
    | .ok coeffs =>
      let (received, faultyNodes) := collectSubShares engine newEpoch run.connectedPeers .empty []
      match newShareValue curve engine coeffs received.values share with
      | .error e => (engine, .error e)
      | .ok value =>
        let newShare := SecureBigInt.create value
        let engine := { engine with currentShare := some newShare }
        let oldShare := share.release
        match run.paillierKeys with
        | .error e => (engine, .error e)
        | .ok newPaillierKeys =>
          let engine := { engine with currentPaillier := some newPaillierKeys }
          let masterPublicKeyUnchanged := verifyMasterPublicKeyInvariant engine
          ({ engine with currentEpoch := newEpoch },
            .ok {
              success := true
              newEpoch
              newShare
              newPaillierKeys
              masterPublicKeyUnchanged
              zeroizedOldShare := oldShare.isReleased
              faultyNodes })
  | _, _ => (engine, .error (plainError (js "KeyRefreshEngine not initialized")))

end

/-! ## The index of `node-i` -/

def nodeName (i : ℕ) : JSString := js "node-" ++ decimal i

/-- The index of `node-i`: the double nearest to `i`. -/
def nodeIndex (i : ℕ) : ℤ := (binary64.round i).num

theorem nodeIndex_eq {i : ℕ} (h : i < 2 ^ 53) : nodeIndex i = i := by
  rw [nodeIndex, binary64.round_natCast h (by decide)]
  exact Rat.num_natCast i

theorem matchNode_nodeName (i : ℕ) : matchNode (nodeName i) = some (decimal i) := by
  have hdigits : (decimal i).takeWhile isDigit = decimal i :=
    List.takeWhile_eq_self_iff.mpr fun d hd => isDigit_of_mem_decimal hd
  have hne : (decimal i).isEmpty = false := by
    rw [List.isEmpty_eq_false_iff]
    exact decimal_ne_nil i
  change matchNode (110 :: 111 :: 100 :: 101 :: 45 :: decimal i) = _
  rw [matchNode]
  simp only [List.drop_succ_cons, List.drop_zero, hdigits, hne]
  rfl

theorem getPeerIndex_nodeName (i : ℕ) : getPeerIndex (nodeName i) = .ofRat i := by
  rw [getPeerIndex, matchNode_nodeName]
  simp only [digitsValue_decimal]

theorem getPeerIndex_nodeName_ne (i : ℕ) : getPeerIndex (nodeName i) ≠ .ofInt (-1) := by
  have hpos : 0 ≤ binary64.round i := binary64.round_nonneg (Nat.cast_nonneg i)
  rw [getPeerIndex_nodeName, JSNumber.ofRat]
  intro h
  split at h
  · have hval := JSNumber.finite.inj h
    rw [hval] at hpos
    exact absurd hpos (by decide)
  · split at h <;> cases h

theorem bigintOfNumber_ofRat {i : ℕ} {k : ℤ} (h : bigintOfNumber (.ofRat i) = .ok k) :
    k = nodeIndex i := by
  rw [JSNumber.ofRat] at h
  split at h
  · rw [bigintOfNumber] at h
    split at h
    · exact (Except.ok.inj h).symm
    · cases h
  · split at h <;> cases h

/-! ## A call that returns -/

section

variable {G : Type} [AddCommGroup G] {curve : Curve G}

/-- The polynomial of one party's refresh. -/
noncomputable def zeroSharing (curve : Curve G) (threshold : ℕ)
    (coefficient : ℕ → Scalar curve.CURVE_ORDER) : Polynomial (ZMod curve.n) :=
  polynomialOf curve.n (0 :: (List.range (threshold - 1)).map fun j => (coefficient j).1)

theorem subShareAt_cast (threshold : ℕ) (coefficient : ℕ → Scalar curve.CURVE_ORDER) (index : ℤ) :
    ((subShareAt curve ((List.range (threshold - 1)).map fun j => (coefficient j).1) index : ℤ) :
        ZMod curve.n) = (zeroSharing curve threshold coefficient).eval (index : ZMod curve.n) := by
  rw [subShareAt, evaluateLoop_cast, zeroSharing, polynomialOf_cons]
  simp

theorem collectSubShares_zero (engine : KeyRefreshEngine) (newEpoch : ℕ) (peerIds : List JSString)
    {received : InsertionMap JSString ℤ} (faultyNodes : List JSString)
    (h : ∀ v ∈ received.values, v = 0) :
    ∀ v ∈ (collectSubShares engine newEpoch peerIds received faultyNodes).1.values, v = 0 := by
  induction peerIds generalizing received faultyNodes with
  | nil => exact h
  | cons peerId peerIds ih =>
    rw [collectSubShares, receiveSubShare]
    split_ifs
    · exact ih faultyNodes h
    · refine ih faultyNodes fun v hv => ?_
      obtain ⟨e, he, rfl⟩ := List.mem_map.mp hv
      rcases InsertionMap.mem_entries_set.mp he with rfl | ⟨hold, -⟩
      · rfl
      · exact h _ (List.mem_map_of_mem hold)

theorem addSubShares_zero {received : List ℤ} (h : ∀ v ∈ received, v = 0) (share : ℤ) :
    ((addSubShares curve received share : ℤ) : ZMod curve.n) = share := by
  induction received generalizing share with
  | nil => rfl
  | cons v received ih =>
    have hv := h v List.mem_cons_self
    have hrest := ih (fun v' hv' => h v' (List.mem_cons_of_mem v hv'))
      ((share + v).tmod curve.CURVE_ORDER)
    rw [cast_tmod, hv, add_zero] at hrest
    rw [← hrest, addSubShares, List.foldl_cons, hv, add_zero, addSubShares]

theorem newShareValue_ok {engine : KeyRefreshEngine} {i : ℕ} (hid : engine.nodeId = nodeName i)
    {threshold : ℕ} {coefficient : ℕ → Scalar curve.CURVE_ORDER} {received : List ℤ}
    (hzero : ∀ v ∈ received, v = 0) {share value : ℤ}
    (h : newShareValue curve engine
      ((List.range (threshold - 1)).map fun j => (coefficient j).1) received (.create share) =
        .ok value) :
    (value : ZMod curve.n) =
      share + (zeroSharing curve threshold coefficient).eval (nodeIndex i : ZMod curve.n) := by
  rw [newShareValue, hid] at h
  obtain ⟨v, hv, h⟩ := bind_eq_ok h
  obtain rfl : share = v := Except.ok.inj hv
  rw [if_neg (getPeerIndex_nodeName_ne i), getPeerIndex_nodeName] at h
  obtain ⟨index, hindex, h⟩ := bind_eq_ok h
  rw [← Except.ok.inj h, cast_tmod, Int.cast_add, addSubShares_zero hzero, subShareAt_cast,
    bigintOfNumber_ofRat hindex]

variable [DecidableEq G]

theorem zeroPolynomial_ok {threshold : ℕ} {coefficient : ℕ → Scalar curve.CURVE_ORDER}
    {polynomial : List (ℤ × JSString)}
    (h : zeroPolynomial curve threshold (fun j => .ok (coefficient j)) = .ok polynomial) :
    polynomial.map Prod.fst = (List.range (threshold - 1)).map fun j => (coefficient j).1 := by
  rw [zeroPolynomial] at h
  generalize List.range (threshold - 1) = l at h ⊢
  induction l generalizing polynomial with
  | nil =>
    obtain rfl : [] = polynomial := Except.ok.inj h
    rfl
  | cons j l ih =>
    rw [List.mapM_cons] at h
    obtain ⟨first, hfirst, h⟩ := bind_eq_ok h
    obtain ⟨rest, hrest, h⟩ := bind_eq_ok h
    obtain ⟨coeff, hcoeff, hfirst⟩ := bind_eq_ok hfirst
    obtain rfl : coefficient j = coeff := Except.ok.inj hcoeff
    obtain ⟨commitment, -, hfirst⟩ := bind_eq_ok hfirst
    obtain ⟨hex, -, hfirst⟩ := bind_eq_ok hfirst
    rw [← Except.ok.inj h, ← Except.ok.inj hfirst, List.map_cons, List.map_cons, ih hrest]

variable {sha256 : Bytes → Digest}

/-- **One refresh.** A call of `node-i` that returns has added the party's own
polynomial at its own index to the share. -/
theorem executeRefresh_ok {i threshold totalParties epoch : ℕ} {share : ℤ}
    {paillierKeys : PaillierKeyPair} {run : RefreshRun curve.CURVE_ORDER}
    {coefficient : ℕ → Scalar curve.CURVE_ORDER} (hrun : run.coefficient = fun j => .ok (coefficient j))
    {engine' : KeyRefreshEngine} {result : RefreshResult}
    (h : executeRefresh curve sha256 (initializeEngine (nodeName i) threshold totalParties
      (.create share) paillierKeys epoch) run = (engine', .ok result)) :
    result.success = true ∧ result.masterPublicKeyUnchanged = true ∧
      ∃ value : ℤ, result.newShare = .create value ∧ engine'.currentShare = some (.create value) ∧
        (value : ZMod curve.n) = share +
          (zeroSharing curve threshold coefficient).eval (nodeIndex i : ZMod curve.n) := by
  simp only [executeRefresh, initializeEngine, hrun] at h
  split at h
  · cases (Prod.mk.inj h).2
  next coeffs hphases =>
    obtain ⟨polynomial, hpoly, hphases⟩ := bind_eq_ok hphases
    obtain ⟨packages, -, hphases⟩ := bind_eq_ok hphases
    have hcoeffs := zeroPolynomial_ok hpoly
    rw [Except.ok.inj hphases] at hcoeffs
    split at h
    · cases (Prod.mk.inj h).2
    next value hvalue =>
      rw [hcoeffs] at hvalue
      have hcast := newShareValue_ok rfl
        (collectSubShares_zero _ _ _ _ fun v hv => by cases hv) hvalue
      split at h
      · cases (Prod.mk.inj h).2
      next newPaillierKeys _ =>
        obtain ⟨rfl, hresult⟩ := Prod.mk.inj h
        obtain rfl := Except.ok.inj hresult
        exact ⟨rfl, rfl, value, rfl, rfl, hcast⟩

/-! ## Several parties -/

/-- **Refreshed shares.** Any `t` of the new shares combine to the old secret
exactly when the weighted sum of the parties' polynomials, each at the party's
own index, is zero. -/
theorem refresh_preserves_iff {t n : ℕ} (hn : n < curve.n) {f : Polynomial (ZMod curve.n)}
    (hf : f.degree < t) {share : ℕ → ℤ}
    (hshare : ∀ i, 1 ≤ i → i ≤ n → (share i : ZMod curve.n) = f.eval (i : ZMod curve.n))
    {coefficient : ℕ → ℕ → Scalar curve.CURVE_ORDER} {run : ℕ → RefreshRun curve.CURVE_ORDER}
    (hrun : ∀ i, 1 ≤ i → i ≤ n → (run i).coefficient = fun j => .ok (coefficient i j))
    {paillierKeys : ℕ → PaillierKeyPair} {epoch : ℕ → ℕ} {engine' : ℕ → KeyRefreshEngine}
    {result : ℕ → RefreshResult}
    (h : ∀ i, 1 ≤ i → i ≤ n → executeRefresh curve sha256 (initializeEngine (nodeName i) t n
      (.create (share i)) (paillierKeys i) (epoch i)) (run i) = (engine' i, .ok (result i)))
    {positions : List ℕ} (hlen : positions.length = t) (hnodup : positions.Nodup)
    (hpos : ∀ i ∈ positions, 1 ≤ i ∧ i ≤ n) :
    (∀ i ∈ positions, (result i).success = true ∧ (result i).masterPublicKeyUnchanged = true) ∧
      ∃ newShares : List ℤ,
        positions.map (fun i => (result i).newShare) = newShares.map SecureBigInt.create ∧
        (combineSignatures curve.CURVE_ORDER newShares (positions.map Int.ofNat) =
            .ok ((f.eval 0).val : ℤ) ↔
          ∑ i ∈ positions.toFinset,
            (zeroSharing curve t (coefficient i)).eval (nodeIndex i : ZMod curve.n) *
              zeroWeight positions.toFinset (Nat.cast : ℕ → ZMod curve.n) i = 0) := by
  have hstep : ∀ i ∈ positions, _ := fun i hi =>
    executeRefresh_ok (hrun i (hpos i hi).1 (hpos i hi).2) (h i (hpos i hi).1 (hpos i hi).2)
  let newShare : ℕ → ℤ := fun i => ((result i).newShare.contents).getD 0
  have hnew : ∀ i ∈ positions, (result i).newShare = .create (newShare i) ∧
      (newShare i : ZMod curve.n) = f.eval (i : ZMod curve.n) +
        (zeroSharing curve t (coefficient i)).eval (nodeIndex i : ZMod curve.n) := by
    intro i hi
    obtain ⟨-, -, value, hvalue, -, hcast⟩ := hstep i hi
    have hval : newShare i = value := by simp only [newShare, hvalue]; rfl
    rw [hval, ← hshare i (hpos i hi).1 (hpos i hi).2]
    exact ⟨hvalue, hcast⟩
  have hlt : ∀ i ∈ positions, i < curve.n := fun i hi => (hpos i hi).2.trans_lt hn
  have hinj : Set.InjOn (Nat.cast : ℕ → ZMod curve.n) positions.toFinset := by
    rw [List.coe_toFinset]
    exact injOn_natCast hlt
  have hcard : positions.toFinset.card = t := by rw [List.toFinset_card_of_nodup hnodup, hlen]
  refine ⟨fun i hi => ⟨(hstep i hi).1, (hstep i hi).2.1⟩, positions.map newShare, ?_, ?_⟩
  · rw [List.map_map]
    exact List.map_congr_left fun i hi => (hnew i hi).1
  · have hsum : ∑ i ∈ positions.toFinset, (newShare i : ZMod curve.n) *
          zeroWeight positions.toFinset (Nat.cast : ℕ → ZMod curve.n) i =
        f.eval 0 + ∑ i ∈ positions.toFinset,
          (zeroSharing curve t (coefficient i)).eval (nodeIndex i : ZMod curve.n) *
            zeroWeight positions.toFinset (Nat.cast : ℕ → ZMod curve.n) i := by
      rw [← sum_zeroWeight_mul hinj (by rwa [hcard]), ← Finset.sum_add_distrib]
      refine Finset.sum_congr rfl fun i hi => ?_
      rw [(hnew i (by simpa using hi)).2, add_mul]
    rw [combineSignatures_positions hnodup hlt, hsum, Except.ok.injEq, Nat.cast_inj,
      (ZMod.val_injective curve.n).eq_iff, add_eq_left]

end

/-! ## Two parties -/

def twoPartyShare (i : ℕ) : ℤ := if i = 1 then 18 else 29

def twoPartyCoefficient (i : ℕ) : Scalar Curve.curve43.CURVE_ORDER :=
  if i = 1 then ⟨1, by decide⟩ else ⟨2, by decide⟩

/-- The run of `node-i`, connected to the other party. -/
def twoPartyRun (i : ℕ) : RefreshRun Curve.curve43.CURVE_ORDER where
  connectedPeers := [nodeName (3 - i)]
  coefficient _ := .ok (twoPartyCoefficient i)
  nonce _ := .ok ⟨3, Curve.scalar_three⟩
  send _ := .ok ()
  paillierKeys := .ok (keyPairOf 7 11 18)

/-- Two parties with shares of `7 + 11 X`. -/
def twoPartyRefresh (i : ℕ) : KeyRefreshEngine × Except JSError RefreshResult :=
  executeRefresh Curve.curve43 (fun _ => zeroDigest)
    (initializeEngine (nodeName i) 2 2 (.create (twoPartyShare i)) (keyPairOf 7 11 18) 0)
    (twoPartyRun i)

theorem refresh_of_contents {outcome : KeyRefreshEngine × Except JSError RefreshResult} {share : ℤ}
    (h : outcome.2.toOption.bind (fun result => result.newShare.contents) = some share) :
    ∃ engine' result, outcome = (engine', .ok result) ∧ result.newShare = .create share := by
  obtain ⟨engine', _ | result⟩ := outcome
  · cases h
  · exact ⟨engine', result, rfl, congrArg SecureBigInt.mk h⟩

theorem twoPartyRefresh_ok : ∃ (engine' : ℕ → KeyRefreshEngine) (result : ℕ → RefreshResult),
    ∀ i, 1 ≤ i → i ≤ 2 →
    twoPartyRefresh i = (engine' i, .ok (result i)) ∧
      (result i).newShare = .create (if i = 1 then 19 else 2) := by
  obtain ⟨engine₁, result₁, h₁, hshare₁⟩ :=
    @refresh_of_contents (twoPartyRefresh 1) 19 (by decide +kernel)
  obtain ⟨engine₂, result₂, h₂, hshare₂⟩ :=
    @refresh_of_contents (twoPartyRefresh 2) 2 (by decide +kernel)
  refine ⟨fun i => if i = 1 then engine₁ else engine₂,
    fun i => if i = 1 then result₁ else result₂, fun i hi hi₂ => ?_⟩
  obtain rfl | rfl : i = 1 ∨ i = 2 := by omega
  · exact ⟨h₁, hshare₁⟩
  · exact ⟨h₂, hshare₂⟩

/-- Both refreshes succeed; the old shares combine to 7, the new ones to 5. -/
theorem twoPartyRefresh_loses_key :
    ∃ (engine' : ℕ → KeyRefreshEngine) (result : ℕ → RefreshResult),
      (∀ i, 1 ≤ i → i ≤ 2 → twoPartyRefresh i = (engine' i, .ok (result i)) ∧
        (result i).success = true ∧ (result i).masterPublicKeyUnchanged = true) ∧
      [1, 2].map (fun i => (result i).newShare) = [19, 2].map SecureBigInt.create ∧
      combineSignatures Curve.curve43.CURVE_ORDER ([1, 2].map twoPartyShare)
        ([1, 2].map Int.ofNat) = .ok 7 ∧
      combineSignatures Curve.curve43.CURVE_ORDER [19, 2] ([1, 2].map Int.ofNat) = .ok 5 := by
  obtain ⟨engine', result, h⟩ := twoPartyRefresh_ok
  refine ⟨engine', result, fun i hi hi₂ => ?_, ?_, by with_unfolding_all decide,
    by with_unfolding_all decide⟩
  · obtain ⟨hok, -⟩ := h i hi hi₂
    have hrun : (twoPartyRun i).coefficient = fun _ => .ok (twoPartyCoefficient i) := rfl
    obtain ⟨hsuccess, hunchanged, -⟩ := executeRefresh_ok hrun hok
    exact ⟨hok, hsuccess, hunchanged⟩
  · simp [(h 1 (by decide) (by decide)).2, (h 2 (by decide) (by decide)).2]

theorem refresh_preserves_iff_twoParty :
    ∃ (engine' : ℕ → KeyRefreshEngine) (result : ℕ → RefreshResult),
      (∀ i, 1 ≤ i → i ≤ 2 → twoPartyRefresh i = (engine' i, .ok (result i))) ∧
      (∀ i ∈ [1, 2], (result i).success = true ∧ (result i).masterPublicKeyUnchanged = true) ∧
      ∃ newShares : List ℤ,
        [1, 2].map (fun i => (result i).newShare) = newShares.map SecureBigInt.create ∧
        (combineSignatures Curve.curve43.CURVE_ORDER newShares ([1, 2].map Int.ofNat) =
            .ok (((ofCoeffs [7, 11] : Polynomial (ZMod Curve.curve43.n)).eval 0).val : ℤ) ↔
          ∑ i ∈ [1, 2].toFinset,
            (zeroSharing Curve.curve43 2 fun _ => twoPartyCoefficient i).eval
                (nodeIndex i : ZMod Curve.curve43.n) *
              zeroWeight [1, 2].toFinset (Nat.cast : ℕ → ZMod Curve.curve43.n) i = 0) := by
  obtain ⟨engine', result, h⟩ := twoPartyRefresh_ok
  refine ⟨engine', result, fun i hi hi₂ => (h i hi hi₂).1, ?_⟩
  have hrun : ∀ i, 1 ≤ i → i ≤ 2 →
      (twoPartyRun i).coefficient = fun _ => .ok (twoPartyCoefficient i) := fun _ _ _ => rfl
  refine refresh_preserves_iff (n := 2) (by decide) (degree_ofCoeffs_lt [7, 11])
    (fun i hi hi₂ => ?_) hrun (fun i hi hi₂ => (h i hi hi₂).1) rfl (by decide) (by decide)
  obtain rfl | rfl : i = 1 ∨ i = 2 := by omega
  · simp only [ofCoeffs_cons, ofCoeffs_nil, Polynomial.eval_add, Polynomial.eval_mul,
      Polynomial.eval_C, Polynomial.eval_X, Polynomial.eval_zero]
    decide
  · simp only [ofCoeffs_cons, ofCoeffs_nil, Polynomial.eval_add, Polynomial.eval_mul,
      Polynomial.eval_C, Polynomial.eval_X, Polynomial.eval_zero]
    decide

end BioFire.KeyRefresh
