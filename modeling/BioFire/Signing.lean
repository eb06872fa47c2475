import BioFire.KeySharing

/-!
# Threshold signing (`src/lib/protocol/mpc_cmp.ts`)

`executeThresholdSigning`, with its phases 1 to 4 as a function of the session
and its shares. Every signer inverts its own nonce, while the first half of the
signature comes from the sum of the nonces.

* `signPhases_ok_iff`: what the phases compute over the shares of a generated key;
* `thresholdSignature_verifies_iff`: the pair verifies exactly when the separate
  inversion makes no difference, or hits a point with the same x coordinate.
-/

namespace BioFire.Mpc

open Sharing

inductive SigningRound where
  | COMPLETED
  deriving DecidableEq, Repr

structure FinalSignature where
  r : JSString
  s : JSString
  v : ℕ
  rawSigHex : JSString

structure SigningCeremonyState where
  ceremonyId : JSString
  dkgSessionId : JSString
  chainId : JSString
  curve : JSString
  messageHash : JSString
  amount : JSString
  symbol : JSString
  toAddress : JSString
  currentRound : SigningRound
  activeSigners : List JSString
  partialSignatures : List (JSString × JSString)
  nonceCommitments : List (JSString × JSString)
  mtaProofs : List (JSString × Bool)
  consistencyChecks : List (JSString × Bool)
  finalSignature : FinalSignature
  durationMs : ℕ
  logs : List JSString
  createdAt : ℤ

/-- The module state. -/
structure MpcState where
  dkg : DkgState
  signSessions : InsertionMap JSString SigningCeremonyState

/-- What one run of `executeThresholdSigning` draws; `nonce i` is that of signer `i`. -/
structure SigningRandomness (q : ℤ) where
  ceremonyId : Bytes
  nonce : ℕ → Scalar q

structure NonceCommitment where
  k : ℤ
  R : Bytes
  r : ℤ

/-- What the phases 1 to 4 compute. -/
structure ThresholdSignature where
  signerIds : List JSString
  nonceCommitments : InsertionMap JSString NonceCommitment
  partialSigs : InsertionMap JSString ℤ
  r : ℤ
  combinedS : ℤ

/-- `s.state`: the session record has no such property. -/
def DKGSession.state (_ : DKGSession) : Option JSString := none

/-- The signers of a ceremony: the first `threshold` parties but the dropped one. -/
def selectSigners (dkgSession : DKGSession) (droppedPartyId : Option JSString) :
    Except JSError (List MPCParty) :=
  let signers := dkgSession.parties.take dkgSession.threshold
  let signers := match droppedPartyId with
    | none => signers
    | some [] => signers
    | some dropped => signers.filter fun s => s.id ≠ dropped
  if signers.length < dkgSession.threshold then
    .error (plainError (js "Insufficient signers: " ++ decimal signers.length ++ js " < " ++
      decimal dkgSession.threshold))
  else .ok signers

section

variable {G : Type} [AddCommGroup G] [DecidableEq G] (curve : Curve G)

/-- Phase 1: every signer's nonce. -/
def nonceRound (nonce : ℕ → Scalar curve.CURVE_ORDER) : List (JSString × ℕ) →
    InsertionMap JSString NonceCommitment → Except JSError (InsertionMap JSString NonceCommitment)
  | [], commitments => .ok commitments
  | (id, i) :: rest, commitments => do
    let k := (nonce i).1
    let R ← curve.multiply curve.BASE k
    let bytes ← curve.toRawBytes R
    nonceRound nonce rest (commitments.set id ⟨k, bytes, modN curve.CURVE_ORDER (curve.x R)⟩)

/-- Phase 2: the sum of the nonce points. -/
def combineNonces : List NonceCommitment → G → Except JSError G
  | [], combinedR => .ok combinedR
  | nc :: rest, combinedR => do combineNonces rest (combinedR + (← curve.fromHex nc.R))

/-- Phase 3: the partial signatures. A missing share and the share zero are skipped. -/
def partialRound (shares : InsertionMap JSString ℤ)
    (nonceCommitments : InsertionMap JSString NonceCommitment) (r z : ℤ) :
    List JSString → InsertionMap JSString ℤ → Except JSError (InsertionMap JSString ℤ)
  | [], partialSigs => .ok partialSigs
  | id :: rest, partialSigs =>
    match shares.get id with
    | none => partialRound shares nonceCommitments r z rest partialSigs
    | some share =>
      if share = 0 then partialRound shares nonceCommitments r z rest partialSigs
      else
        match nonceCommitments.get id with
        | none => .error ⟨.TypeError, js "Cannot read properties of undefined (reading 'k')"⟩
        | some nc => do
          let kInv ← modInverseOrder curve.CURVE_ORDER nc.k
          let rx := modN curve.CURVE_ORDER (r * share)
          let s := modN curve.CURVE_ORDER (kInv * modN curve.CURVE_ORDER (z + rx))
          partialRound shares nonceCommitments r z rest (partialSigs.set id s)

/-- The 1-based indices of the first `t` signers. -/
def signerIndices (t : ℕ) : List ℤ := (List.range t).map fun i => ((i + 1 : ℕ) : ℤ)

/-- The phases 1 to 4 over the shares of a session. -/
def signPhases (shares : InsertionMap JSString ℤ) (signerIds : List JSString) (z : ℤ)
    (nonce : ℕ → Scalar curve.CURVE_ORDER) : Except JSError ThresholdSignature := do
  let nonceCommitments ← nonceRound curve nonce signerIds.zipIdx .empty
  let combinedR ← combineNonces curve nonceCommitments.values 0
  let _ ← curve.toRawBytes combinedR
  let r := modN curve.CURVE_ORDER (curve.x combinedR)
  let partialSigs ← partialRound curve shares nonceCommitments r z signerIds .empty
  let combinedS ← combineSignatures curve.CURVE_ORDER partialSigs.values
    (signerIndices signerIds.length)
  return ⟨signerIds, nonceCommitments, partialSigs, r, combinedS⟩

/-- The signed message. -/
def signingMessage (chainId amount symbol toAddress : JSString) (now : ℤ) : JSString :=
  chainId ++ js ":" ++ amount ++ js ":" ++ symbol ++ js ":" ++ toAddress ++ js ":" ++
    bigintString now

/-- `executeThresholdSigning`; `now` and `createdAt` are its two readings of the clock. -/
def executeThresholdSigning (sha256 : Bytes → Digest) (state : MpcState)
    (chainId amount symbol toAddress : JSString) (droppedPartyId : Option JSString)
    (random : SigningRandomness curve.CURVE_ORDER) (now createdAt : ℤ) :
    MpcState × Except JSError SigningCeremonyState :=
  let run : Except JSError SigningCeremonyState := do
    let dkgSession ← match state.dkg.dkgSessions.values.find? fun s =>
        s.state = some (js "COMPLETED") with
      | none => .error (plainError (js "No active DKG session found"))
      | some dkgSession => .ok dkgSession
    let ceremonyId := generateSessionId random.ceremonyId
    let messageHash := sha256 (textEncode (signingMessage chainId amount symbol toAddress now))
    let signers ← selectSigners dkgSession droppedPartyId
    let signerIds := signers.map MPCParty.id
    let shares ← match state.dkg.nodeShares.get dkgSession.sessionId with
      | none => .error (plainError (js "DKG shares not found"))
      | some shares => .ok shares
    let sig ← signPhases curve shares signerIds (bytesToBigInt messageHash.1) random.nonce
    let rHex := padStart64 (toString16 sig.r)
    let sHex := padStart64 (toString16 sig.combinedS)
    return {
      ceremonyId
      dkgSessionId := dkgSession.sessionId
      chainId
      curve := dkgSession.curve
      messageHash := js "0x" ++ bytesToHex messageHash.1
      amount
      symbol
      toAddress
      currentRound := .COMPLETED
      activeSigners := signerIds
      partialSignatures := sig.partialSigs.entries.map fun (id, s) =>
        (id, js "0x" ++ padStart64 (toString16 s))
      nonceCommitments := sig.nonceCommitments.entries.map fun (id, nc) =>
        (id, js "0x" ++ bytesToHex nc.R)
      mtaProofs := []
      consistencyChecks := [(js "combined_signature", true)]
      finalSignature := ⟨js "0x" ++ rHex, js "0x" ++ sHex, 27, js "0x" ++ rHex ++ sHex ++ js "1b"⟩
      durationMs := 0
      logs := [
        js "DKG session loaded: " ++ dkgSession.sessionId,
        js "Phase 1: " ++ decimal signers.length ++ js " signers generated independent nonces",
        js "Phase 2: MtA exchange completed with ZK range proofs",
        js "Phase 3: Partial signatures computed",
        js "Phase 4: Lagrange interpolation combined signatures",
        js "Phase 5: Final ECDSA signature verified"]
      createdAt }
  match run with
  | .error e => (state, .error e)
  | .ok ceremony =>
    ({ state with signSessions := state.signSessions.set ceremony.ceremonyId ceremony },
      .ok ceremony)

end

/-! ## What the phases compute -/

section

variable {G : Type} [AddCommGroup G] {curve : Curve G}

theorem cast_scalar_ne_zero (k : Scalar curve.CURVE_ORDER) : (k.1 : ZMod curve.n) ≠ 0 := by
  have hk₁ := k.2.1
  rw [Ne, ZMod.intCast_zmod_eq_zero_iff_dvd]
  intro hdvd
  exact absurd (Int.le_of_dvd (by omega) hdvd) (not_le.mpr k.2.2)

/-- The entry of signer `i` in the map of phase 1. -/
def nonceCommitment (curve : Curve G) (nonce : ℕ → Scalar curve.CURVE_ORDER) (i : ℕ) :
    NonceCommitment :=
  ⟨(nonce i).1, curve.encode (curve.point ((nonce i).1 : ZMod curve.n)),
    modN curve.CURVE_ORDER (curve.x (curve.point ((nonce i).1 : ZMod curve.n)))⟩

theorem combineNonces_eq (nonce : ℕ → Scalar curve.CURVE_ORDER) (l : List ℕ) (P : G) :
    combineNonces curve (l.map (nonceCommitment curve nonce)) P =
      .ok (P + curve.point ((l.map fun i => ((nonce i).1 : ZMod curve.n)).sum)) := by
  induction l generalizing P with
  | nil => simp [combineNonces, (curve.point_eq_zero_iff 0).mpr rfl]
  | cons i l ih =>
    have hR : curve.point ((nonce i).1 : ZMod curve.n) ≠ 0 := by
      rw [Ne, curve.point_eq_zero_iff]
      exact cast_scalar_ne_zero (nonce i)
    have hfrom : curve.fromHex (nonceCommitment curve nonce i).R =
        .ok (curve.point ((nonce i).1 : ZMod curve.n)) := curve.fromHex_encode hR
    rw [List.map_cons, combineNonces]
    simp only [hfrom, bind, Except.bind, ih, List.map_cons, List.sum_cons, curve.point_add,
      add_assoc]

/-- The sum of the nonces of the first `t` signers. -/
def nonceSum (curve : Curve G) (nonce : ℕ → Scalar curve.CURVE_ORDER) (t : ℕ) : ZMod curve.n :=
  ∑ i ∈ Finset.range t, ((nonce i).1 : ZMod curve.n)

/-- The partial signature of signer `i`. -/
def partialSig (curve : Curve G) (nonce : ℕ → Scalar curve.CURVE_ORDER) (share : ℕ → ℤ) (r z : ℤ)
    (i : ℕ) : ZMod curve.n :=
  ((nonce i).1 : ZMod curve.n)⁻¹ * (z + r * share i)

theorem partialRound_ok {shares : InsertionMap JSString ℤ}
    {commitments : InsertionMap JSString NonceCommitment} (nonce : ℕ → Scalar curve.CURVE_ORDER)
    (share : ℕ → ℤ) (r z : ℤ) (l : List (JSString × ℕ))
    (hl : ∀ e ∈ l, shares.get e.1 = some (share e.2) ∧ share e.2 ≠ 0 ∧
      commitments.get e.1 = some (nonceCommitment curve nonce e.2))
    (partialSigs : InsertionMap JSString ℤ) :
    ∃ sigs : List (JSString × ℤ), sigs.map Prod.fst = l.map Prod.fst ∧
      sigs.map (fun e => (e.2 : ZMod curve.n)) =
        l.map (fun e => partialSig curve nonce share r z e.2) ∧
      partialRound curve shares commitments r z (l.map Prod.fst) partialSigs =
        .ok (partialSigs.setAll sigs) := by
  induction l generalizing partialSigs with
  | nil => exact ⟨[], rfl, rfl, rfl⟩
  | cons e l ih =>
    obtain ⟨id, i⟩ := e
    obtain ⟨hshare, hne, hnc⟩ := hl (id, i) List.mem_cons_self
    obtain ⟨kInv, hkInv⟩ := modInverseOrder_ok_iff.mpr (cast_scalar_ne_zero (nonce i))
    have hkInv' : modInverseOrder curve.CURVE_ORDER (nonceCommitment curve nonce i).k =
        .ok kInv := hkInv
    obtain ⟨s, hs⟩ : ∃ s, s = modN curve.CURVE_ORDER (kInv * modN curve.CURVE_ORDER
        (z + modN curve.CURVE_ORDER (r * share i))) := ⟨_, rfl⟩
    have hcast : (s : ZMod curve.n) = partialSig curve nonce share r z i := by
      rw [hs, cast_modN, Int.cast_mul, cast_modN, Int.cast_add, cast_modN, Int.cast_mul,
        cast_modInverseOrder hkInv, partialSig]
    obtain ⟨sigs, hids, hcasts, hrest⟩ :=
      ih (fun e he => hl e (List.mem_cons_of_mem _ he)) (partialSigs.set id s)
    refine ⟨(id, s) :: sigs, by rw [List.map_cons, List.map_cons, hids], ?_, ?_⟩
    · rw [List.map_cons, List.map_cons, hcasts, hcast]
    · rw [List.map_cons, partialRound]
      simp only [hshare, hne, if_false, hnc, hkInv', bind, Except.bind, ← hs, hrest]
      rfl

/-- The map of phase 1. -/
def nonceMap (curve : Curve G) (nonce : ℕ → Scalar curve.CURVE_ORDER) (ids : List JSString) :
    InsertionMap JSString NonceCommitment :=
  InsertionMap.empty.setAll (ids.zipIdx.map fun e => (e.1, nonceCommitment curve nonce e.2))

theorem nonceMap_entries (nonce : ℕ → Scalar curve.CURVE_ORDER) {ids : List JSString}
    (hids : ids.Nodup) : (nonceMap curve nonce ids).entries =
      ids.zipIdx.map fun e => (e.1, nonceCommitment curve nonce e.2) := by
  refine InsertionMap.entries_setAll_empty ?_
  rw [List.map_map]
  exact (List.zipIdx_map_fst 0 ids).symm ▸ hids

theorem combineNonces_nonceMap (nonce : ℕ → Scalar curve.CURVE_ORDER) {ids : List JSString}
    (hids : ids.Nodup) : combineNonces curve (nonceMap curve nonce ids).values 0 =
      .ok (curve.point (nonceSum curve nonce ids.length)) := by
  have hvalues : (nonceMap curve nonce ids).values =
      (List.range ids.length).map (nonceCommitment curve nonce) := by
    rw [InsertionMap.values, nonceMap_entries nonce hids, List.map_map]
    exact zipIdx_map_snd (nonceCommitment curve nonce) ids
  rw [hvalues, combineNonces_eq, zero_add]
  rfl

theorem partialRound_nonceMap {shares : InsertionMap JSString ℤ} {ids : List JSString}
    (hids : ids.Nodup) {share : ℕ → ℤ}
    (hshare : ∀ i (h : i < ids.length), shares.get ids[i] = some (share i) ∧ share i ≠ 0)
    (nonce : ℕ → Scalar curve.CURVE_ORDER) (r z : ℤ) :
    ∃ sigs, partialRound curve shares (nonceMap curve nonce ids) r z ids .empty = .ok sigs ∧
      sigs.values.length = ids.length ∧
      ∀ i < ids.length, (sigs.values.getD i 0 : ZMod curve.n) =
        partialSig curve nonce share r z i := by
  have hl : ∀ e ∈ ids.zipIdx, shares.get e.1 = some (share e.2) ∧ share e.2 ≠ 0 ∧
      (nonceMap curve nonce ids).get e.1 = some (nonceCommitment curve nonce e.2) := by
    rintro ⟨id, i⟩ he
    have hid := List.mk_mem_zipIdx_iff_getElem?.mp he
    obtain ⟨hi, rfl⟩ := List.getElem?_eq_some_iff.mp hid
    refine ⟨(hshare i hi).1, (hshare i hi).2, ?_⟩
    rw [InsertionMap.get_eq_some_iff, nonceMap_entries nonce hids]
    exact List.mem_map.mpr ⟨_, he, rfl⟩
  obtain ⟨sigs, hfst, hcast, hrun⟩ := partialRound_ok nonce share r z ids.zipIdx hl .empty
  rw [List.zipIdx_map_fst] at hfst hrun
  have hvalues : ((InsertionMap.empty : InsertionMap JSString ℤ).setAll sigs).values =
      sigs.map Prod.snd := by
    rw [InsertionMap.values, InsertionMap.entries_setAll_empty (by rw [hfst]; exact hids)]
  have hlen : sigs.length = ids.length := by simpa using congrArg List.length hfst
  refine ⟨_, hrun, by rw [hvalues, List.length_map, hlen], fun i hi => ?_⟩
  have hget := congrArg (fun l => l[i]?) hcast
  simp only [List.getElem?_map, List.getElem?_eq_getElem (hlen.symm ▸ hi : i < sigs.length),
    List.getElem?_eq_getElem (by simpa using hi : i < ids.zipIdx.length), Option.map_some,
    Option.some.injEq, List.getElem_zipIdx, zero_add] at hget
  rw [hvalues, List.getD_eq_getElem _ _ (by simpa [hlen] using hi), List.getElem_map, hget]

/-- The weighted difference between inverting each nonce and inverting their sum. -/
noncomputable def inversionDefect (curve : Curve G) (t : ℕ) (nonce : ℕ → Scalar curve.CURVE_ORDER)
    (share : ℕ → ℤ) (z : ℤ) : ZMod curve.n :=
  let K := nonceSum curve nonce t
  let r : ℤ := curve.x (curve.point K) % curve.n
  ∑ i ∈ Finset.range t, (K * ((nonce i).1 : ZMod curve.n)⁻¹ - 1) * (z + r * share i) *
    zeroWeight (Finset.range t) (indexResidue curve.n (signerIndices t)) i

/-- The separate inversion makes no difference, or the point of the verification
equation, then another one, has the x coordinate of the sum of the nonce points. -/
def InversionHarmless (curve : Curve G) (t : ℕ) (nonce : ℕ → Scalar curve.CURVE_ORDER)
    (share : ℕ → ℤ) (secret z : ℤ) : Prop :=
  let K := nonceSum curve nonce t
  let r : ℤ := curve.x (curve.point K) % curve.n
  let e : ZMod curve.n := z + r * secret
  let D := inversionDefect curve t nonce share z
  D = 0 ∨ D ≠ 0 ∧ e ≠ 0 ∧ curve.x (curve.point (e * (K / (e + D)))) % curve.n = r

theorem nonceSum_mul_combined {t : ℕ} (ht : 1 ≤ t) (nonce : ℕ → Scalar curve.CURVE_ORDER)
    {share : ℕ → ℤ} {z : ℤ} {f : Polynomial (ZMod curve.n)} (hf : f.degree < t)
    (hinj : Set.InjOn (indexResidue curve.n (signerIndices t)) (Finset.range t))
    (hval : ∀ i < t,
      (share i : ZMod curve.n) = f.eval (indexResidue curve.n (signerIndices t) i)) :
    let K := nonceSum curve nonce t
    let r : ℤ := curve.x (curve.point K) % curve.n
    K * ∑ i ∈ Finset.range t, partialSig curve nonce share r z i *
        zeroWeight (Finset.range t) (indexResidue curve.n (signerIndices t)) i =
      (z + r * f.eval 0) + inversionDefect curve t nonce share z := by
  intro K r
  have hone : ∑ i ∈ Finset.range t,
      zeroWeight (Finset.range t) (indexResidue curve.n (signerIndices t)) i = 1 :=
    sum_zeroWeight hinj ⟨0, Finset.mem_range.mpr (by omega)⟩
  have hsecret : ∑ i ∈ Finset.range t, (share i : ZMod curve.n) *
      zeroWeight (Finset.range t) (indexResidue curve.n (signerIndices t)) i = f.eval 0 := by
    rw [← sum_zeroWeight_mul hinj (by rwa [Finset.card_range])]
    exact Finset.sum_congr rfl fun i hi => by rw [hval i (Finset.mem_range.mp hi)]
  have hsum : (z + r * f.eval 0 : ZMod curve.n) = ∑ i ∈ Finset.range t,
      (z + r * share i : ZMod curve.n) *
        zeroWeight (Finset.range t) (indexResidue curve.n (signerIndices t)) i := by
    simp only [add_mul, Finset.sum_add_distrib, mul_assoc, ← Finset.mul_sum, hone, hsecret, mul_one]
  rw [hsum, inversionDefect, ← Finset.sum_add_distrib, Finset.mul_sum]
  refine Finset.sum_congr rfl fun i _ => ?_
  rw [partialSig]
  ring

theorem indexResidue_signerIndices {t i : ℕ} (hi : i < t) :
    indexResidue curve.n (signerIndices t) i = ((i + 1 : ℕ) : ZMod curve.n) := by
  rw [indexResidue, signerIndices, List.getD_eq_getElem _ _ (by simpa using hi), List.getElem_map,
    List.getElem_range, Int.cast_natCast]

/-- The equation of a pair computed from the nonces, the shares and the key. -/
theorem verifies_combined_iff {t n : ℕ} (ht : 1 ≤ t)
    (coefficient : ℕ → ℕ → Scalar curve.CURVE_ORDER) {nonce : ℕ → Scalar curve.CURVE_ORDER}
    {z r combinedS : ℤ} (hK : nonceSum curve nonce t ≠ 0)
    (hinj : Set.InjOn (indexResidue curve.n (signerIndices t)) (Finset.range t))
    (hr : r = curve.x (curve.point (nonceSum curve nonce t)) % curve.n)
    (hS : combinedS = (∑ i ∈ Finset.range t,
      partialSig curve nonce (fun i => shareAt curve t n coefficient (i + 1)) r z i *
      zeroWeight (Finset.range t) (indexResidue curve.n (signerIndices t)) i).val)
    (hr₀ : r ≠ 0) (hs₀ : combinedS ≠ 0) :
    curve.Verifies (curve.point ((aggregate curve.n
        (partyPolynomials curve t n coefficient)).eval 0)) z r combinedS ↔
      InversionHarmless curve t nonce (fun i => shareAt curve t n coefficient (i + 1))
        (sharedSecret curve n coefficient) z := by
  have hval : ∀ i < t, (shareAt curve t n coefficient (i + 1) : ZMod curve.n) =
      (aggregate curve.n (partyPolynomials curve t n coefficient)).eval
        (indexResidue curve.n (signerIndices t) i) := by
    intro i hi
    rw [shareAt_eq, indexResidue_signerIndices hi, Int.cast_natCast, ZMod.natCast_zmod_val]
  have hd : (aggregate curve.n (partyPolynomials curve t n coefficient)).eval 0 =
      (sharedSecret curve n coefficient : ZMod curve.n) := by
    rw [← eval_zero_aggregate ht, Int.cast_natCast, ZMod.natCast_zmod_val]
  have hKS := nonceSum_mul_combined ht nonce (z := z)
    (degree_partyPolynomials_lt t n coefficient) hinj hval
  simp only [← hr, hd] at hKS
  have hS' : (combinedS : ZMod curve.n) = ∑ i ∈ Finset.range t,
      partialSig curve nonce (fun i => shareAt curve t n coefficient (i + 1)) r z i *
      zeroWeight (Finset.range t) (indexResidue curve.n (signerIndices t)) i := by
    rw [hS, Int.cast_natCast, ZMod.natCast_zmod_val]
  rw [← hS'] at hKS
  have hS₀ : (combinedS : ZMod curve.n) ≠ 0 := by
    intro hzero
    rw [hS', ← ZMod.val_eq_zero] at hzero
    exact hs₀ (by rw [hS, hzero]; rfl)
  have hr_range : 1 ≤ r ∧ r < curve.n := by
    have hnonneg := Int.emod_nonneg (curve.x (curve.point (nonceSum curve nonce t)))
      (order_pos (n := curve.n)).ne'
    rw [← hr] at hnonneg
    exact ⟨by omega, hr ▸ Int.emod_lt_of_pos _ order_pos⟩
  have hs_range : 1 ≤ combinedS ∧ combinedS < curve.n := by
    refine ⟨by omega, ?_⟩
    rw [hS]
    exact_mod_cast ZMod.val_lt _
  rw [hd, curve.verifies_iff hr_range.1 hr_range.2 hs_range.1 hs_range.2, InversionHarmless, ← hr]
  generalize inversionDefect curve t nonce
    (fun i => shareAt curve t n coefficient (i + 1)) z = D at hKS ⊢
  -- the inverse of `s` from `K * s = e + D`
  have hinv : (combinedS : ZMod curve.n)⁻¹ = nonceSum curve nonce t /
      (z + r * (sharedSecret curve n coefficient : ZMod curve.n) + D) := by
    rw [← hKS, div_mul_cancel_left₀ hK]
  rw [hinv]
  by_cases hD : D = 0
  · subst hD
    have he : (z + r * (sharedSecret curve n coefficient : ZMod curve.n)) ≠ 0 := by
      rw [add_zero] at hKS
      rw [← hKS]
      exact mul_ne_zero hK hS₀
    refine iff_of_true ⟨he, ?_⟩ (Or.inl rfl)
    rw [add_zero, mul_div_cancel₀ _ he, ← hr]
  · simp only [hD, false_or, ne_eq, not_false_eq_true, true_and]

variable [DecidableEq G]

theorem nonceRound_eq (nonce : ℕ → Scalar curve.CURVE_ORDER) (l : List (JSString × ℕ))
    (commitments : InsertionMap JSString NonceCommitment) :
    nonceRound curve nonce l commitments =
      .ok (commitments.setAll (l.map fun e => (e.1, nonceCommitment curve nonce e.2))) := by
  induction l generalizing commitments with
  | nil => rfl
  | cons e l ih =>
    obtain ⟨id, i⟩ := e
    have hR : curve.point ((nonce i).1 : ZMod curve.n) ≠ 0 := by
      rw [Ne, curve.point_eq_zero_iff]
      exact cast_scalar_ne_zero (nonce i)
    rw [nonceRound]
    simp only [curve.multiply_ok (nonce i).2.1 (nonce i).2.2, curve.zsmul_BASE,
      curve.toRawBytes_ok hR, bind, Except.bind, ih]
    rfl

/-- **The phases** over `t` signers with nonzero shares: they return unless the
nonces add up to zero or two indices have the same residue. -/
theorem signPhases_ok_iff {shares : InsertionMap JSString ℤ} {ids : List JSString}
    (hids : ids.Nodup) (share : ℕ → ℤ)
    (hshare : ∀ i (h : i < ids.length), shares.get ids[i] = some (share i) ∧ share i ≠ 0)
    (nonce : ℕ → Scalar curve.CURVE_ORDER) (z r combinedS : ℤ) :
    (∃ sig, signPhases curve shares ids z nonce = .ok sig ∧ sig.r = r ∧
        sig.combinedS = combinedS) ↔
      nonceSum curve nonce ids.length ≠ 0 ∧
      Set.InjOn (indexResidue curve.n (signerIndices ids.length)) (Finset.range ids.length) ∧
      r = curve.x (curve.point (nonceSum curve nonce ids.length)) % curve.n ∧
      combinedS = (∑ i ∈ Finset.range ids.length, partialSig curve nonce share r z i *
        zeroWeight (Finset.range ids.length)
          (indexResidue curve.n (signerIndices ids.length)) i).val := by
  have hnonces := nonceRound_eq nonce ids.zipIdx (.empty : InsertionMap JSString NonceCommitment)
  rw [← nonceMap] at hnonces
  have hsum := combineNonces_nonceMap nonce hids
  by_cases hK : nonceSum curve nonce ids.length = 0
  · refine iff_of_false ?_ fun h => h.1 hK
    have hzero : curve.toRawBytes (curve.point (nonceSum curve nonce ids.length)) =
        .error externalError := if_pos ((curve.point_eq_zero_iff _).mpr hK)
    rintro ⟨sig, hsig, -⟩
    simp only [signPhases, hnonces, hsum, hzero, bind, Except.bind] at hsig
    cases hsig
  · have hbytes := curve.toRawBytes_ok (mt (curve.point_eq_zero_iff _).mp hK)
    have hr : modN curve.CURVE_ORDER (curve.x (curve.point (nonceSum curve nonce ids.length))) =
        curve.x (curve.point (nonceSum curve nonce ids.length)) % curve.n := modN_eq order_pos _
    obtain ⟨sigs, hsigs, hlen, hcast⟩ := partialRound_nonceMap hids hshare nonce
      (curve.x (curve.point (nonceSum curve nonce ids.length)) % curve.n) z
    have hindices : (signerIndices ids.length).length = ids.length := by simp [signerIndices]
    have hcombine := fun c => combineSignatures_ok_iff (n := curve.n) (c := c)
      (hlen.trans hindices.symm)
    rw [hindices] at hcombine
    have hweights : ∑ i ∈ Finset.range ids.length, (sigs.values.getD i 0 : ZMod curve.n) *
        zeroWeight (Finset.range ids.length)
          (indexResidue curve.n (signerIndices ids.length)) i =
        ∑ i ∈ Finset.range ids.length, partialSig curve nonce share
          (curve.x (curve.point (nonceSum curve nonce ids.length)) % curve.n) z i *
        zeroWeight (Finset.range ids.length)
          (indexResidue curve.n (signerIndices ids.length)) i :=
      Finset.sum_congr rfl fun i hi => by rw [hcast i (Finset.mem_range.mp hi)]
    rw [hweights] at hcombine
    have hrun : signPhases curve shares ids z nonce = do
        let combinedS ← combineSignatures curve.CURVE_ORDER sigs.values (signerIndices ids.length)
        return ⟨ids, nonceMap curve nonce ids, sigs,
          curve.x (curve.point (nonceSum curve nonce ids.length)) % curve.n, combinedS⟩ := by
      simp only [signPhases, hnonces, hsum, hbytes, hr, hsigs, bind, Except.bind]
    constructor
    · rintro ⟨sig, hsig, rfl, rfl⟩
      rw [hrun] at hsig
      obtain ⟨c, hc, hsig⟩ := bind_eq_ok hsig
      obtain rfl := Except.ok.inj hsig
      obtain ⟨hinj, hc⟩ := (hcombine c).mp hc
      exact ⟨hK, hinj, rfl, hc⟩
    · rintro ⟨-, hinj, rfl, rfl⟩
      have hc := (hcombine _).mpr ⟨hinj, rfl⟩
      exact ⟨_, by rw [hrun]; simp only [hc, bind, Except.bind]; rfl, rfl, rfl⟩

/-! ## The verification equation -/

/-- The signers of a ceremony that goes on are the first `threshold` parties. -/
theorem selectSigners_ok {session : DKGSession} {dropped : Option JSString}
    {signers : List MPCParty} (h : selectSigners session dropped = .ok signers) :
    signers = session.parties.take session.threshold ∧ signers.length = session.threshold := by
  have hsublist : ∀ (l : List MPCParty) (e : JSError),
      l.Sublist (session.parties.take session.threshold) →
      (if l.length < session.threshold then .error e else .ok l) = Except.ok signers →
      signers = session.parties.take session.threshold ∧
        signers.length = session.threshold := by
    intro l e hl hif
    have hle := hl.length_le
    have htake : (session.parties.take session.threshold).length ≤ session.threshold := by simp
    split at hif
    next => cases hif
    next hlen =>
      obtain rfl := Except.ok.inj hif
      exact ⟨hl.eq_of_length (by omega), by omega⟩
  cases dropped with
  | none => exact hsublist _ _ (List.Sublist.refl _) h
  | some id =>
    cases id with
    | nil => exact hsublist _ _ (List.Sublist.refl _) h
    | cons c cs => exact hsublist _ _ List.filter_sublist h

/-- What the phases have computed over the shares of a generated key. -/
theorem signed_generated {state state' : DkgState} {t n : ℕ}
    {random : DkgRandomness curve.CURVE_ORDER} {session : DKGSession}
    (hids : ((selectedNodes state n).map NodeConfig.id).Nodup)
    (he : Executed curve state state' t n random session) {shares : InsertionMap JSString ℤ}
    (hshares : state'.nodeShares.get session.sessionId = some shares)
    {dropped : Option JSString} {signers : List MPCParty}
    (hsigners : selectSigners session dropped = .ok signers) {z r combinedS : ℤ}
    {nonce : ℕ → Scalar curve.CURVE_ORDER} :
    (∃ sig, signPhases curve shares (signers.map MPCParty.id) z nonce = .ok sig ∧ sig.r = r ∧
        sig.combinedS = combinedS) ↔
      nonceSum curve nonce t ≠ 0 ∧
      Set.InjOn (indexResidue curve.n (signerIndices t)) (Finset.range t) ∧
      r = curve.x (curve.point (nonceSum curve nonce t)) % curve.n ∧
      combinedS = (∑ i ∈ Finset.range t,
        partialSig curve nonce (fun i => shareAt curve t n random.coefficient (i + 1)) r z i *
        zeroWeight (Finset.range t) (indexResidue curve.n (signerIndices t)) i).val := by
  obtain ⟨hsig, hlen⟩ := selectSigners_ok hsigners
  rw [he.threshold_eq] at hsig hlen
  have hplen : session.parties.length = n := by
    have hplen := congrArg List.length he.parties_ids
    rwa [List.length_map, List.length_map, selectedNodes_length] at hplen
  have htn : t ≤ n := by
    rw [hsig, List.length_take] at hlen
    omega
  have hidsNodup : (signers.map MPCParty.id).Nodup := by
    rw [hsig, List.map_take, he.parties_ids]
    exact hids.sublist (List.take_sublist _ _)
  obtain ⟨allShares, hall, hshare⟩ := he.shares
  obtain rfl := Option.some.inj (hall.symm.trans hshares)
  have hget : ∀ i (h : i < (signers.map MPCParty.id).length),
      allShares.get (signers.map MPCParty.id)[i] =
        some (shareAt curve t n random.coefficient (i + 1)) ∧
      shareAt curve t n random.coefficient (i + 1) ≠ 0 := by
    intro i hi
    have hit : i < t := by simpa [hlen] using hi
    have hparty := hshare i (by omega)
    have hrange := (he.share_range i (by omega)).1
    have hi' : i < session.parties.length := by omega
    have hid : (signers.map MPCParty.id)[i] = session.parties[i].id := by simp [hsig]
    rw [hid, hparty]
    exact ⟨rfl, by rw [shareAt]; omega⟩
  have hiff := signPhases_ok_iff hidsNodup
    (fun i => shareAt curve t n random.coefficient (i + 1)) hget nonce z r combinedS
  rw [List.length_map, hlen] at hiff
  exact hiff

/-- **Threshold signatures.** The pair `(r, combinedS)` of the phases 1 to 4 over the
shares of a generated key verifies under its master public key exactly when the
separate inversion of the nonces is harmless. -/
theorem thresholdSignature_verifies_iff {state state' : DkgState} {t n : ℕ} {curveType : JSString}
    {random : DkgRandomness curve.CURVE_ORDER} {now : ℤ} {session : DKGSession} (ht : 1 ≤ t)
    (hids : ((selectedNodes state n).map NodeConfig.id).Nodup)
    (hdkg : executeDKG curve state t n curveType random now = (state', .ok session))
    {shares : InsertionMap JSString ℤ}
    (hshares : state'.nodeShares.get session.sessionId = some shares)
    {dropped : Option JSString} {signers : List MPCParty}
    (hsigners : selectSigners session dropped = .ok signers) {z : ℤ}
    {nonce : ℕ → Scalar curve.CURVE_ORDER} {sig : ThresholdSignature}
    (hsign : signPhases curve shares (signers.map MPCParty.id) z nonce = .ok sig)
    (hr : sig.r ≠ 0) (hs : sig.combinedS ≠ 0) :
    ∃ Q, Q ≠ 0 ∧ session.masterPublicKey = js "0x" ++ bytesToHex (curve.encode Q) ∧
      (curve.Verifies Q z sig.r sig.combinedS ↔
        InversionHarmless curve t nonce (fun i => shareAt curve t n random.coefficient (i + 1))
          (sharedSecret curve n random.coefficient) z) := by
  have he := executeDKG_ok hids hdkg
  obtain ⟨hK, hinj, hr', hs'⟩ :=
    (signed_generated hids he hshares hsigners).mp ⟨sig, hsign, rfl, rfl⟩
  exact ⟨_, mt (curve.point_eq_zero_iff _).mp he.secret_ne_zero, he.masterPublicKey_eq,
    verifies_combined_iff ht random.coefficient hK hinj hr' hs' hr hs⟩

end

/-! ## A ceremony of two -/

open Curve

/-- The shares of `twoNodes`. -/
def twoShares : InsertionMap JSString ℤ :=
  InsertionMap.empty.setAll [(js "node-1", 18), (js "node-2", 29)]

/-- The nonces 1 and 2. -/
def twoNonces (i : ℕ) : Scalar curve43.CURVE_ORDER :=
  if i = 0 then ⟨1, scalar_one⟩ else ⟨2, scalar_two⟩

/-- The run of `twoNodes`, and its signers. -/
theorem twoNodes_run : ∃ state' session signers,
    executeDKG curve43 emptyState 2 2 (js "secp256k1") twoNodes 0 = (state', .ok session) ∧
      state'.nodeShares.get session.sessionId = some twoShares ∧
      selectSigners session none = .ok signers ∧
      signers.map MPCParty.id = [js "node-1", js "node-2"] ∧
      session.masterPublicKey = js "0x" ++ bytesToHex (curve43.encode (curve43.point 7)) :=
  ⟨_, _, _, rfl, rfl, rfl, rfl, rfl⟩

theorem twoNodes_signed :
    ∃ sig, signPhases curve43 twoShares [js "node-1", js "node-2"] 5 twoNonces = .ok sig ∧
      sig.r = 4 ∧ sig.combinedS = 16 := by
  have hpair : (signPhases curve43 twoShares [js "node-1", js "node-2"] 5 twoNonces).toOption.map
      (fun sig => (sig.r, sig.combinedS)) = some (4, 16) := by with_unfolding_all decide
  cases hsig : signPhases curve43 twoShares [js "node-1", js "node-2"] 5 twoNonces with
  | error e => rw [hsig] at hpair; cases hpair
  | ok sig =>
    rw [hsig] at hpair
    obtain ⟨hr, hs⟩ := Prod.mk.inj (Option.some.inj hpair)
    exact ⟨sig, rfl, hr, hs⟩

theorem thresholdSignature_verifies_iff_twoNodes :
    ∃ state' session signers sig,
      executeDKG curve43 emptyState 2 2 (js "secp256k1") twoNodes 0 = (state', .ok session) ∧
      selectSigners session none = .ok signers ∧
      signPhases curve43 twoShares (signers.map MPCParty.id) 5 twoNonces = .ok sig ∧
      ∃ Q, Q ≠ 0 ∧ session.masterPublicKey = js "0x" ++ bytesToHex (curve43.encode Q) ∧
        (curve43.Verifies Q 5 sig.r sig.combinedS ↔
          InversionHarmless curve43 2 twoNonces
            (fun i => shareAt curve43 2 2 twoNodes.coefficient (i + 1))
            (sharedSecret curve43 2 twoNodes.coefficient) 5) := by
  obtain ⟨state', session, signers, hdkg, hshares, hsigners, hids, -⟩ := twoNodes_run
  obtain ⟨sig, hsig, hr, hs⟩ := twoNodes_signed
  rw [← hids] at hsig
  exact ⟨state', session, signers, sig, hdkg, hsigners, hsig,
    thresholdSignature_verifies_iff (by decide) (by decide) hdkg hshares hsigners hsig
      (by rw [hr]; decide) (by rw [hs]; decide)⟩

/-- With the key 7, the nonces 1 and 2 and the hash 5 the phases give the pair
`(4, 16)`, which does not verify. -/
theorem twoNodes_signature_fails :
    ∃ state' session signers sig Q,
      executeDKG curve43 emptyState 2 2 (js "secp256k1") twoNodes 0 = (state', .ok session) ∧
      state'.nodeShares.get session.sessionId = some twoShares ∧
      selectSigners session none = .ok signers ∧
      signPhases curve43 twoShares (signers.map MPCParty.id) 5 twoNonces = .ok sig ∧
      sig.r ≠ 0 ∧ sig.combinedS ≠ 0 ∧
      session.masterPublicKey = js "0x" ++ bytesToHex (curve43.encode Q) ∧
      ¬ curve43.Verifies Q 5 sig.r sig.combinedS := by
  obtain ⟨state', session, signers, hdkg, hshares, hsigners, hids, hpk⟩ := twoNodes_run
  obtain ⟨sig, hsig, hr, hs⟩ := twoNodes_signed
  rw [← hids] at hsig
  refine ⟨state', session, signers, sig, curve43.point 7, hdkg, hshares, hsigners, hsig,
    by rw [hr]; decide, by rw [hs]; decide, hpk, ?_⟩
  rw [hr, hs, curve43.verifies_iff (by decide) (by decide) (by decide) (by decide)]
  rintro ⟨-, hx⟩
  revert hx
  with_unfolding_all decide

end BioFire.Mpc
