import BioFire.ZeroSharing
import BioFire.Separators

/-!
# Proofs of sub-shares (`src/lib/protocol/key_refresh_engine.ts`)

`generateSubShareZKP` hashes the digits of `R` and the epoch in which the engine is.
`verifySubShareZKP` hashes the text `0x` with these digits, and the epoch of the package, which is
the next one.

* `subSharePackage_ok`: the package for a nonzero sub-share;
* `provenText_ne_verifiedText`: the two texts differ;
* `subShare_package_rejected`: no package is accepted.
-/

namespace BioFire.KeyRefresh

open Mpc Separators Sharing

section

variable {G : Type} [AddCommGroup G] (curve : Curve G)

/-- The challenges of two different texts differ. -/
def NoCollision (sha256 : Bytes → Digest) (text text' : JSString) : Prop :=
  challengeOf curve sha256 text = challengeOf curve sha256 text' → text = text'

/-- What the prover hashes. -/
def provenText (engine : KeyRefreshEngine) (r subShare : ℤ) : JSString :=
  challengeInput (curve.encode (r • curve.BASE)) (curve.encode (subShare • curve.BASE))
    engine.nodeId engine.currentEpoch

/-- What the verifier hashes of the package for the next epoch. -/
def verifiedText (engine : KeyRefreshEngine) (r subShare : ℤ) : JSString :=
  js "0x" ++ bytesToHex (curve.encode (r • curve.BASE)) ++ js ":" ++
    bytesToHex (curve.encode (subShare • curve.BASE)) ++ js ":" ++ engine.nodeId ++ js ":" ++
    decimal (engine.currentEpoch + 1)

variable {curve}

theorem colon_not_mem_decimal (n : ℕ) : 58 ∉ decimal n := by
  intro hmem
  cases isDigit_of_mem_decimal hmem

theorem provenText_ne_verifiedText (engine : KeyRefreshEngine) (r subShare : ℤ) :
    provenText curve engine r subShare ≠ verifiedText curve engine r subShare := by
  intro h
  simp only [provenText, verifiedText, challengeInput, append_colon] at h
  obtain ⟨-, hepoch⟩ := append_cons_inj_last (colon_not_mem_decimal _) (colon_not_mem_decimal _) h
  have hvalue := congrArg digitsValue hepoch
  rw [digitsValue_decimal, digitsValue_decimal] at hvalue
  omega

/-! ## The package -/

theorem getPeerIndex_nonneg {peerId : JSString} (hpeer : getPeerIndex peerId ≠ .ofInt (-1))
    {peerIndex : ℤ} (h : bigintOfNumber (getPeerIndex peerId) = .ok peerIndex) :
    0 ≤ peerIndex := by
  rw [getPeerIndex] at hpeer h
  split at h
  next digits _ =>
    rw [bigintOfNumber_ofRat h, nodeIndex, Rat.num_nonneg]
    exact binary64.round_nonneg (Nat.cast_nonneg _)
  next hnone =>
    rw [hnone] at hpeer
    exact absurd rfl hpeer

theorem evaluateLoop_lt {x : ℤ} {cs : List ℤ} {value power : ℤ} (hvalue : value < curve.n) :
    evaluateLoop curve x cs value power < curve.n := by
  induction cs generalizing value power with
  | nil => exact hvalue
  | cons c cs ih => exact ih (Int.tmod_lt_of_pos _ (by exact_mod_cast curve.prime.pos))

variable [DecidableEq G] {sha256 : Bytes → Digest} {engine : KeyRefreshEngine}
  {coefficient : ℕ → Scalar curve.CURVE_ORDER} {polynomial : List (ℤ × JSString)}
  {peerId : JSString} {peerIndex : ℤ}

theorem subShareAt_bounds
    (hpoly : zeroPolynomial curve engine.threshold (fun j => .ok (coefficient j)) = .ok polynomial)
    (hindex : 0 ≤ peerIndex)
    (hnonzero : subShareAt curve (polynomial.map Prod.fst) peerIndex ≠ 0) :
    1 ≤ subShareAt curve (polynomial.map Prod.fst) peerIndex ∧
      subShareAt curve (polynomial.map Prod.fst) peerIndex < curve.n := by
  have hcoeffs : ∀ c ∈ polynomial.map Prod.fst, 0 ≤ c := by
    rw [zeroPolynomial_ok hpoly]
    intro c hc
    obtain ⟨j, -, rfl⟩ := List.mem_map.mp hc
    have := (coefficient j).2.1
    omega
  have hnonneg : 0 ≤ subShareAt curve (polynomial.map Prod.fst) peerIndex :=
    evaluateLoop_nonneg hindex hcoeffs le_rfl hindex
  exact ⟨by omega, evaluateLoop_lt (by exact_mod_cast curve.prime.pos)⟩

/-- **The package** that is built for a nonzero sub-share. -/
theorem subSharePackage_ok {subShare : ℤ}
    (hindex : bigintOfNumber (getPeerIndex peerId) = .ok peerIndex)
    (hsub : subShareAt curve (polynomial.map Prod.fst) peerIndex = subShare)
    (h₁ : 1 ≤ subShare) (hn : subShare < curve.n) (newEpoch : ℕ) (r : Scalar curve.CURVE_ORDER) :
    ∃ pkg, subSharePackage curve sha256 engine newEpoch polynomial peerId (.ok r) = .ok pkg ∧
      pkg.fromNodeId = engine.nodeId ∧ pkg.epoch = newEpoch ∧ pkg.subShare = scalarHex subShare ∧
      pkg.proof.commitmentR = js "0x" ++ bytesToHex (curve.encode (r.1 • curve.BASE)) ∧
      pkg.proof.challengeE =
        scalarHex (challengeOf curve sha256 (provenText curve engine r.1 subShare)) := by
  obtain ⟨hR, hbytesR⟩ := curve.multiply_BASE_ok r.2.1 r.2.2
  obtain ⟨hC, hbytesC⟩ := curve.multiply_BASE_ok h₁ hn
  let e := challengeOf curve sha256 (provenText curve engine r.1 subShare)
  let pkg : SubSharePackage := {
    fromNodeId := engine.nodeId
    toNodeId := peerId
    subShare := scalarHex subShare
    commitment := (polynomial.map Prod.snd)[0]?
    proof := {
      commitmentR := js "0x" ++ bytesToHex (curve.encode (r.1 • curve.BASE))
      challengeE := scalarHex e
      responseZ := scalarHex ((r.1 + e * subShare).tmod curve.CURVE_ORDER) }
    epoch := newEpoch }
  refine ⟨pkg, ?_, rfl, rfl, rfl, rfl, rfl⟩
  simp only [subSharePackage, generateSubShareZKP, hindex, hsub, hR, hbytesR, hC, hbytesC, bind,
    Except.bind, pure, Except.pure]
  rfl

/-! ## The verification -/

/-- An accepted proof has the challenge of the text that the verifier hashes. -/
theorem challenge_of_verifySubShareZKP {subShareHex : JSString} {proof : RefreshZKP}
    {nodeId : JSString} {epoch : ℕ} {subShare e : ℤ}
    (hsub : bigintOfString subShareHex = .ok subShare)
    (he : bigintOfString proof.challengeE = .ok e)
    (h : verifySubShareZKP curve sha256 subShareHex proof nodeId epoch = true) :
    e = challengeOf curve sha256 (proofText curve proof.commitmentR subShare nodeId epoch) := by
  obtain ⟨subShare', -, -, e', hsub', -, -, he', rfl, -⟩ := verifySubShareZKP_iff.mp h
  obtain rfl := Except.ok.inj (hsub.symm.trans hsub')
  exact Except.ok.inj (he.symm.trans he')

/-- **No package is accepted.** The proof in a package of `executeRefresh` is rejected, unless the
texts that are hashed collide. -/
theorem subShare_package_rejected (sha256 : Bytes → Digest) (engine : KeyRefreshEngine)
    (coefficient : ℕ → Scalar curve.CURVE_ORDER)
    (hpoly : zeroPolynomial curve engine.threshold (fun j => .ok (coefficient j)) = .ok polynomial)
    (hpeer : getPeerIndex peerId ≠ .ofInt (-1))
    (hindex : bigintOfNumber (getPeerIndex peerId) = .ok peerIndex)
    (hnonzero : subShareAt curve (polynomial.map Prod.fst) peerIndex ≠ 0)
    (r : Scalar curve.CURVE_ORDER)
    (hcollision : NoCollision curve sha256
      (provenText curve engine r.1 (subShareAt curve (polynomial.map Prod.fst) peerIndex))
      (verifiedText curve engine r.1 (subShareAt curve (polynomial.map Prod.fst) peerIndex))) :
    ∃ pkg, subSharePackage curve sha256 engine (engine.currentEpoch + 1) polynomial peerId (.ok r) =
        .ok pkg ∧
      verifySubShareZKP curve sha256 pkg.subShare pkg.proof pkg.fromNodeId pkg.epoch = false := by
  obtain ⟨h₁, hn⟩ := subShareAt_bounds hpoly (getPeerIndex_nonneg hpeer hindex) hnonzero
  obtain ⟨pkg, hpkg, hnode, hepoch, hsub, hcommitment, hchallenge⟩ :=
    @subSharePackage_ok _ _ curve _ sha256 engine polynomial peerId peerIndex _ hindex rfl h₁ hn
      (engine.currentEpoch + 1) r
  refine ⟨pkg, hpkg, ?_⟩
  by_contra haccepted
  rw [Bool.not_eq_false] at haccepted
  have hread : bigintOfString pkg.subShare =
      .ok (subShareAt curve (polynomial.map Prod.fst) peerIndex) := by
    rw [hsub]
    exact bigintOfString_padStart64 (by omega)
  have hchallengeRead : bigintOfString pkg.proof.challengeE = .ok (challengeOf curve sha256
      (provenText curve engine r.1 (subShareAt curve (polynomial.map Prod.fst) peerIndex))) := by
    rw [hchallenge]
    exact bigintOfString_padStart64 (challengeOf_bounds _ _).1
  have hsame := challenge_of_verifySubShareZKP hread hchallengeRead haccepted
  rw [hcommitment, hnode, hepoch] at hsame
  exact provenText_ne_verifiedText engine _ _ (hcollision hsame)

end

/-! ## One package -/

/-- `node-1` in epoch 0. -/
def honestEngine : KeyRefreshEngine :=
  initializeEngine (nodeName 1) 2 2 (.create 7) (keyPairOf 7 11 18) 0

/-- SHA-256 of `042315:040707:node-1:0`. -/
def provenDigest : Digest :=
  ⟨[0x5D, 0x84, 0xE1, 0xCE, 0x7C, 0xE8, 0x10, 0x56, 0xC0, 0x77, 0x55, 0x11,
    0x3C, 0xD9, 0x0A, 0xA1, 0xEF, 0x9C, 0xF8, 0x00, 0xBF, 0x97, 0x09, 0x9D,
    0xA1, 0x83, 0x9E, 0x95, 0x3F, 0x00, 0x29, 0x10], rfl⟩

/-- SHA-256 of `0x042315:040707:node-1:1`. -/
def verifiedDigest : Digest :=
  ⟨[0xB6, 0xA8, 0x32, 0x00, 0x45, 0x2D, 0xFF, 0x52, 0xDA, 0x9F, 0xFD, 0x83,
    0xEA, 0x14, 0x46, 0xC7, 0xFA, 0x25, 0x24, 0xC3, 0x9A, 0x93, 0xB0, 0x71,
    0xCD, 0x01, 0xBC, 0x89, 0x56, 0xAC, 0xC8, 0xAB], rfl⟩

def packageSha256 (bytes : Bytes) : Digest :=
  if bytes = textEncode (js "042315:040707:node-1:0") then provenDigest else verifiedDigest

theorem honest_polynomial : zeroPolynomial Curve.curve43 honestEngine.threshold
    (fun _ => .ok ⟨1, Curve.scalar_one⟩) = .ok [(1, js "0x04020c")] := by decide

theorem honest_peer : getPeerIndex (nodeName 2) ≠ .ofInt (-1) ∧
    bigintOfNumber (getPeerIndex (nodeName 2)) = .ok 2 := by with_unfolding_all decide

theorem honest_challenges :
    challengeOf Curve.curve43 packageSha256 (provenText Curve.curve43 honestEngine 3 2) = 19 ∧
      challengeOf Curve.curve43 packageSha256 (verifiedText Curve.curve43 honestEngine 3 2) = 23 := by
  decide

theorem subShare_package_rejected_node :
    ∃ pkg, subSharePackage Curve.curve43 packageSha256 honestEngine 1 [(1, js "0x04020c")]
        (nodeName 2) (.ok ⟨3, Curve.scalar_three⟩) = .ok pkg ∧
      verifySubShareZKP Curve.curve43 packageSha256 pkg.subShare pkg.proof pkg.fromNodeId
        pkg.epoch = false := by
  refine subShare_package_rejected packageSha256 honestEngine (fun _ => ⟨1, Curve.scalar_one⟩)
    honest_polynomial honest_peer.1 honest_peer.2 (by decide) ⟨3, Curve.scalar_three⟩ ?_
  intro h
  obtain ⟨hproven, hverified⟩ := honest_challenges
  exact absurd (hproven.symm.trans (h.trans hverified)) (by decide)

/-- The sub-share 2 of `node-1` for `node-2` has the challenge 19; the verifier computes 23. -/
theorem honest_package_rejected :
    ∃ pkg, subSharePackage Curve.curve43 packageSha256 honestEngine (honestEngine.currentEpoch + 1)
        [(1, js "0x04020c")] (nodeName 2) (.ok ⟨3, Curve.scalar_three⟩) = .ok pkg ∧
      pkg.proof.challengeE = scalarHex 19 ∧
      verifySubShareZKP Curve.curve43 packageSha256 pkg.subShare pkg.proof pkg.fromNodeId
        pkg.epoch ≠ true := by
  obtain ⟨hproven, hverified⟩ := honest_challenges
  obtain ⟨pkg, hpkg, hnode, hepoch, hsub, hcommitment, hchallenge⟩ :=
    @subSharePackage_ok _ _ Curve.curve43 _ packageSha256 honestEngine [(1, js "0x04020c")]
      (nodeName 2) 2 2 honest_peer.2 (by decide) (by decide) (by decide)
      (honestEngine.currentEpoch + 1) ⟨3, Curve.scalar_three⟩
  rw [hproven] at hchallenge
  refine ⟨pkg, hpkg, hchallenge, fun haccepted => ?_⟩
  have hread : bigintOfString pkg.subShare = .ok 2 := by
    rw [hsub]
    exact bigintOfString_padStart64 (by decide)
  have hchallengeRead : bigintOfString pkg.proof.challengeE = .ok 19 := by
    rw [hchallenge]
    exact bigintOfString_padStart64 (by decide)
  have hsame := challenge_of_verifySubShareZKP hread hchallengeRead haccepted
  rw [hcommitment, hnode, hepoch] at hsame
  exact absurd (hsame.trans hverified) (by decide)

end BioFire.KeyRefresh
