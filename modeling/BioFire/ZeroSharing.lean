import BioFire.ByteNumbers
import BioFire.KeyRefresh

/-!
# Sub-shares of one dealer (`src/lib/protocol/key_refresh_engine.ts`)

`verifySubShareZKP` checks a proof of knowledge of the sub-share that it is given, and looks at
no commitment to a polynomial. What is accepted one by one need not be consistent.

* `verifySubShareZKP_iff`: what is accepted;
* `exists_proof_iff`: which sub-shares have a proof that is accepted;
* `not_sharesOfZero`: one number sent to everyone is no sharing of zero;
* `zero_sharing_iff`: accepted sub-shares are values of one polynomial that vanishes at zero only
  where no sub-share can be proved at all, or there are not as many indices.
-/

namespace BioFire.KeyRefresh

open Mpc Sharing

section

variable {G : Type} [AddCommGroup G] [DecidableEq G] (curve : Curve G) (sha256 : Bytes → Digest)

/-- The checks of a proof, where a text that is no number or no point throws. -/
def checkSubShareZKP (subShareHex : JSString) (proof : RefreshZKP) (nodeId : JSString)
    (epoch : ℕ) : Except JSError Bool := do
  let subShare ← bigintOfString subShareHex
  let R ← curve.fromHex (← hexToBytes (removeHexPrefix proof.commitmentR))
  let z ← bigintOfString proof.responseZ
  let e ← bigintOfString proof.challengeE
  let C ← curve.multiply curve.BASE subShare
  let hash := sha256 (textEncode (proof.commitmentR ++ js ":" ++
    bytesToHex (← curve.toRawBytes C) ++ js ":" ++ nodeId ++ js ":" ++ decimal epoch))
  let eExpected := (bytesToBigInt hash.1).tmod curve.CURVE_ORDER
  if e ≠ eExpected then return false
  else
    let zG ← curve.multiply curve.BASE z
    let eC ← curve.multiply C e
    return decide (zG = R + eC)

def verifySubShareZKP (subShareHex : JSString) (proof : RefreshZKP) (nodeId : JSString)
    (epoch : ℕ) : Bool :=
  (checkSubShareZKP curve sha256 subShareHex proof nodeId epoch).toOption.getD false

/-- The challenge of a hashed text. -/
def challengeOf (text : JSString) : ℤ :=
  (bytesToBigInt (sha256 (textEncode text)).1).tmod curve.CURVE_ORDER

/-- The text that `verifySubShareZKP` hashes. -/
def proofText (commitmentR : JSString) (subShare : ℤ) (nodeId : JSString) (epoch : ℕ) : JSString :=
  commitmentR ++ js ":" ++ bytesToHex (curve.encode (subShare • curve.BASE)) ++ js ":" ++ nodeId ++
    js ":" ++ decimal epoch

/-- The text is the encoding of a point. -/
def ReadsPoint (text : JSString) (R : G) : Prop :=
  ∃ bytes, hexToBytes (removeHexPrefix text) = .ok bytes ∧ curve.fromHex bytes = .ok R

/-- Some point `R` and its text make a proof of the sub-share: `multiply` takes no zero, so
neither the challenge nor the sum that is compared with `z · G` may be zero. -/
def Provable (nodeId : JSString) (epoch : ℕ) (subShare : ℤ) : Prop :=
  1 ≤ subShare ∧ subShare < curve.n ∧ ∃ commitmentR R, ReadsPoint curve commitmentR R ∧
    challengeOf curve sha256 (proofText curve commitmentR subShare nodeId epoch) ≠ 0 ∧
    R + challengeOf curve sha256 (proofText curve commitmentR subShare nodeId epoch) •
      subShare • curve.BASE ≠ 0

/-- Packages of one dealer for one epoch, with one commitment, that are all accepted. Each comes
with the index at which it is to be a value. -/
structure AcceptedDeal (dealer : JSString) (epoch : ℕ) (commitment : Option JSString)
    (deal : List (ℤ × SubSharePackage)) : Prop where
  fromNodeId_eq : ∀ e ∈ deal, e.2.fromNodeId = dealer
  epoch_eq : ∀ e ∈ deal, e.2.epoch = epoch
  commitment_eq : ∀ e ∈ deal, e.2.commitment = commitment
  accepted : ∀ e ∈ deal,
    verifySubShareZKP curve sha256 e.2.subShare e.2.proof e.2.fromNodeId e.2.epoch = true
  indices_nodup : (deal.map fun e => (e.1 : ZMod curve.n)).Nodup

end

section

variable {G : Type} [AddCommGroup G] (curve : Curve G)

/-- The sub-shares are the values at the indices of one polynomial of degree less than `t` that
vanishes at zero. -/
def SharesOfZero (t : ℕ) (deal : List (ℤ × SubSharePackage)) : Prop :=
  ∃ f : Polynomial (ZMod curve.n), f.degree < t ∧ f.eval 0 = 0 ∧ ∀ e ∈ deal,
    bigintOfString e.2.subShare = .ok ((f.eval (e.1 : ZMod curve.n)).val : ℤ)

variable {curve}

/-! ## What is accepted -/

theorem challengeOf_bounds (sha256 : Bytes → Digest) (text : JSString) :
    0 ≤ challengeOf curve sha256 text ∧ challengeOf curve sha256 text < curve.n :=
  ⟨Int.tmod_nonneg _ (bytesToBigInt_bounds _).1,
    Int.tmod_lt_of_pos _ (by exact_mod_cast curve.prime.pos)⟩

section Accepted

variable [DecidableEq G] {sha256 : Bytes → Digest} {nodeId : JSString} {epoch : ℕ}

/-- **What `verifySubShareZKP` accepts**: four texts that are read, three numbers that
`multiply` takes, the challenge of the hashed text and the equation `z · G = R + e · C`. -/
theorem verifySubShareZKP_iff {subShareHex : JSString} {proof : RefreshZKP} :
    verifySubShareZKP curve sha256 subShareHex proof nodeId epoch = true ↔
      ∃ subShare R z e, bigintOfString subShareHex = .ok subShare ∧
        ReadsPoint curve proof.commitmentR R ∧ bigintOfString proof.responseZ = .ok z ∧
        bigintOfString proof.challengeE = .ok e ∧
        e = challengeOf curve sha256 (proofText curve proof.commitmentR subShare nodeId epoch) ∧
        (1 ≤ subShare ∧ subShare < curve.n) ∧ (1 ≤ z ∧ z < curve.n) ∧ (1 ≤ e ∧ e < curve.n) ∧
        z • curve.BASE = R + e • subShare • curve.BASE := by
  rw [verifySubShareZKP, toOption_getD_eq_true_iff]
  constructor
  · intro hcheck
    unfold checkSubShareZKP at hcheck
    obtain ⟨subShare, hsub, hcheck⟩ := bind_eq_ok hcheck
    obtain ⟨bytes, hbytes, hcheck⟩ := bind_eq_ok hcheck
    obtain ⟨R, hR, hcheck⟩ := bind_eq_ok hcheck
    obtain ⟨z, hz, hcheck⟩ := bind_eq_ok hcheck
    obtain ⟨e, he, hcheck⟩ := bind_eq_ok hcheck
    obtain ⟨C, hC, hcheck⟩ := bind_eq_ok hcheck
    obtain ⟨bytesC, hbytesC, hcheck⟩ := bind_eq_ok hcheck
    obtain ⟨h₁, hn, rfl⟩ := curve.multiply_eq_ok hC
    obtain ⟨-, rfl⟩ := curve.toRawBytes_eq_ok hbytesC
    dsimp only at hcheck
    split at hcheck
    · cases hcheck
    next heq =>
      obtain ⟨zG, hzG, hcheck⟩ := bind_eq_ok hcheck
      obtain ⟨eC, heC, hcheck⟩ := bind_eq_ok hcheck
      obtain ⟨hz₁, hzn, rfl⟩ := curve.multiply_eq_ok hzG
      obtain ⟨he₁, hen, rfl⟩ := curve.multiply_eq_ok heC
      exact ⟨subShare, R, z, e, hsub, ⟨bytes, hbytes, hR⟩, hz, he, not_not.mp heq, ⟨h₁, hn⟩,
        ⟨hz₁, hzn⟩, ⟨he₁, hen⟩, of_decide_eq_true (Except.ok.inj hcheck)⟩
  · rintro ⟨subShare, R, z, e, hsub, ⟨bytes, hbytes, hR⟩, hz, he, heq, ⟨h₁, hn⟩, ⟨hz₁, hzn⟩,
      ⟨he₁, hen⟩, hequation⟩
    obtain ⟨hC, hbytesC⟩ := curve.multiply_BASE_ok h₁ hn
    have hsame : e = (bytesToBigInt (sha256 (textEncode (proof.commitmentR ++ js ":" ++
        bytesToHex (curve.encode (subShare • curve.BASE)) ++ js ":" ++ nodeId ++ js ":" ++
        decimal epoch))).1).tmod curve.CURVE_ORDER := heq
    simp only [checkSubShareZKP, hsub, hbytes, hR, hz, he, hC, hbytesC, bind, Except.bind, ne_eq,
      ← hsame, not_true_eq_false, if_false, curve.multiply_ok hz₁ hzn, curve.multiply_ok he₁ hen,
      hequation, decide_true, pure, Except.pure]

/-- **Which sub-shares can be proved.** -/
theorem exists_proof_iff {subShareHex : JSString} {subShare : ℤ}
    (hsub : bigintOfString subShareHex = .ok subShare) :
    (∃ proof, verifySubShareZKP curve sha256 subShareHex proof nodeId epoch = true) ↔
      Provable curve sha256 nodeId epoch subShare := by
  constructor
  · rintro ⟨proof, haccepted⟩
    obtain ⟨subShare', R, z, e, hsub', hR, -, -, rfl, ⟨h₁, hn⟩, ⟨hz₁, hzn⟩, ⟨he₁, -⟩, hequation⟩ :=
      verifySubShareZKP_iff.mp haccepted
    obtain rfl := Except.ok.inj (hsub.symm.trans hsub')
    refine ⟨h₁, hn, proof.commitmentR, R, hR, by omega, ?_⟩
    rw [← hequation]
    exact curve.zsmul_BASE_ne_zero hz₁ hzn
  · rintro ⟨h₁, hn, commitmentR, R, hR, hchallenge, hsum⟩
    obtain ⟨k, hk⟩ := curve.generates (R +
      challengeOf curve sha256 (proofText curve commitmentR subShare nodeId epoch) •
        subShare • curve.BASE)
    have hpos : (0 : ℤ) < curve.n := by exact_mod_cast curve.prime.pos
    have hz : (k % curve.n) • curve.BASE = k • curve.BASE := by
      rw [curve.zsmul_BASE_eq_iff]
      simp
    have hz₀ : k % curve.n ≠ 0 := by
      intro hzero
      rw [hzero, zero_smul] at hz
      exact hsum (hk.symm.trans hz.symm)
    have hznonneg := Int.emod_nonneg k hpos.ne'
    obtain ⟨hnonneg, hlt⟩ := @challengeOf_bounds _ _ curve sha256
      (proofText curve commitmentR subShare nodeId epoch)
    refine ⟨⟨commitmentR, scalarHex _, scalarHex (k % curve.n)⟩, verifySubShareZKP_iff.mpr
      ⟨subShare, R, k % curve.n, _, hsub, hR, bigintOfString_padStart64 hznonneg,
        bigintOfString_padStart64 hnonneg, rfl, ⟨h₁, hn⟩,
        ⟨by omega, Int.emod_lt_of_pos k hpos⟩, ⟨by omega, hlt⟩, hz.trans hk⟩⟩

end Accepted

/-! ## One number for everyone -/

/-- Values of a polynomial of degree less than their number that are all the same are the value
at zero too. -/
theorem not_sharesOfZero {t : ℕ} {deal : List (ℤ × SubSharePackage)} {subShare : ℤ}
    (h₁ : 1 ≤ subShare) (hn : subShare < curve.n)
    (hsub : ∀ e ∈ deal, bigintOfString e.2.subShare = .ok subShare)
    (hnodup : (deal.map fun e => (e.1 : ZMod curve.n)).Nodup) (hne : deal ≠ [])
    (ht : t ≤ deal.length) : ¬ SharesOfZero curve t deal := by
  rintro ⟨f, hdeg, hzero, hval⟩
  let indices := (deal.map fun e => (e.1 : ZMod curve.n)).toFinset
  have hcard : indices.card = deal.length := by
    rw [List.toFinset_card_of_nodup hnodup, List.length_map]
  have hconst : f.eval 0 = (subShare : ZMod curve.n) := by
    refine eval_zero_of_forall_eq (Set.injOn_id _) (s := indices) ?_ ?_ ?_
    · rwa [← Finset.card_pos, hcard, List.length_pos_iff]
    · rw [hcard]
      exact lt_of_lt_of_le hdeg (by exact_mod_cast ht)
    · intro x hx
      obtain ⟨e, he, rfl⟩ := List.mem_map.mp (List.mem_toFinset.mp hx)
      have hshare := Except.ok.inj ((hsub e he).symm.trans (hval e he))
      rw [id_eq, hshare]
      simp
  rw [hconst, ZMod.intCast_zmod_eq_zero_iff_dvd] at hzero
  exact absurd (Int.le_of_dvd (by omega) hzero) (by omega)

variable [DecidableEq G]

variable {sha256 : Bytes → Digest} {dealer : JSString} {epoch : ℕ} {commitment : Option JSString}

/-- One accepted package may be sent to as many indices as the field has elements. -/
theorem acceptedDeal_replicate {package : SubSharePackage} (hdealer : package.fromNodeId = dealer)
    (hepoch : package.epoch = epoch) (hcommitment : package.commitment = commitment)
    (haccepted : verifySubShareZKP curve sha256 package.subShare package.proof dealer epoch = true)
    {m : ℕ} (hm : m ≤ curve.n) :
    AcceptedDeal curve sha256 dealer epoch commitment
      ((List.range m).map fun k : ℕ => ((k : ℤ) + 1, package)) := by
  have hpackage : ∀ e ∈ (List.range m).map fun k : ℕ => ((k : ℤ) + 1, package), e.2 = package := by
    intro e he
    obtain ⟨k, -, rfl⟩ := List.mem_map.mp he
    rfl
  exact {
    fromNodeId_eq := fun e he => by rw [hpackage e he, hdealer]
    epoch_eq := fun e he => by rw [hpackage e he, hepoch]
    commitment_eq := fun e he => by rw [hpackage e he, hcommitment]
    accepted := fun e he => by rw [hpackage e he, hdealer, hepoch, haccepted]
    indices_nodup := by
      rw [List.map_map]
      refine List.Nodup.map_on ?_ List.nodup_range
      intro j hj k hk hjk
      have hlt : ∀ i ∈ List.range m, i < curve.n := fun i hi => (List.mem_range.mp hi).trans_le hm
      have hcast : (j : ZMod curve.n) = k := by simpa using hjk
      exact injOn_natCast hlt hj hk hcast }

/-- **Consistency of accepted sub-shares.** Accepted sub-shares of one dealer, `t` of them at
least, are always the values of a polynomial of degree less than `t` that vanishes at zero exactly
when there are no `t` distinct indices or the dealer can prove no sub-share. -/
theorem zero_sharing_iff (curve : Curve G) (sha256 : Bytes → Digest) (dealer : JSString)
    (epoch : ℕ) (commitment : Option JSString) (t : ℕ) :
    (∀ deal, AcceptedDeal curve sha256 dealer epoch commitment deal → t ≤ deal.length →
        SharesOfZero curve t deal) ↔
      curve.n < t ∨ ∀ subShare, ¬ Provable curve sha256 dealer epoch subShare := by
  constructor
  · intro hshares
    by_contra hnot
    push Not at hnot
    obtain ⟨ht, subShare, hprovable⟩ := hnot
    obtain ⟨h₁, hn, -⟩ := id hprovable
    have hread : bigintOfString (scalarHex subShare) = .ok subShare :=
      bigintOfString_padStart64 (by omega)
    obtain ⟨proof, haccepted⟩ := (exists_proof_iff hread).mpr hprovable
    let package : SubSharePackage := ⟨dealer, [], scalarHex subShare, commitment, proof, epoch⟩
    have hm : max t 1 ≤ curve.n := max_le ht curve.prime.one_lt.le
    have hdeal := @acceptedDeal_replicate _ _ curve _ sha256 dealer epoch commitment package
      rfl rfl rfl haccepted _ hm
    refine not_sharesOfZero h₁ hn ?_ hdeal.indices_nodup ?_ ?_ (hshares _ hdeal ?_)
    · intro e he
      obtain ⟨k, -, rfl⟩ := List.mem_map.mp he
      exact hread
    · simp
    · simp
    · simp
  · rintro (ht | hnone) deal hdeal hlength
    · have hcard := hdeal.indices_nodup.length_le_card
      rw [List.length_map, ZMod.card] at hcard
      omega
    · have hnil : deal = [] := by
        refine List.eq_nil_iff_forall_not_mem.mpr fun e he => ?_
        have haccepted := hdeal.accepted e he
        rw [hdeal.fromNodeId_eq e he, hdeal.epoch_eq e he] at haccepted
        obtain ⟨subShare, -, -, -, hsub, -⟩ := verifySubShareZKP_iff.mp haccepted
        exact hnone subShare ((exists_proof_iff hsub).mp ⟨_, haccepted⟩)
      subst hnil
      refine ⟨0, ?_, by simp, by simp⟩
      rw [Polynomial.degree_zero]
      exact WithBot.bot_lt_coe t

end

/-! ## A dealer that sends everyone the same number -/

/-- A package of `node-3` with the sub-share 1 and a proof with the nonce 1. -/
def constantPackage (toNodeId : ℕ) : SubSharePackage where
  fromNodeId := nodeName 3
  toNodeId := nodeName toNodeId
  subShare := js "0x1"
  commitment := some (js "0x" ++ bytesToHex (Curve.curve43.encode Curve.curve43.BASE))
  proof := {
    commitmentR := js "0x" ++ bytesToHex (Curve.curve43.encode Curve.curve43.BASE)
    challengeE := js "0x1"
    responseZ := js "0x2" }
  epoch := 1

def constantDeal : List (ℤ × SubSharePackage) := [(1, constantPackage 1), (2, constantPackage 2)]

theorem forall_mem_constantDeal {P : ℤ × SubSharePackage → Prop} :
    (∀ e ∈ constantDeal, P e) ↔ P (1, constantPackage 1) ∧ P (2, constantPackage 2) := by
  simp [constantDeal]

theorem constantDeal_accepted : AcceptedDeal Curve.curve43 (fun _ => oneDigest) (nodeName 3) 1
    (some (js "0x" ++ bytesToHex (Curve.curve43.encode Curve.curve43.BASE))) constantDeal where
  fromNodeId_eq := by simp [constantDeal, constantPackage]
  epoch_eq := by simp [constantDeal, constantPackage]
  commitment_eq := by simp [constantDeal, constantPackage]
  accepted := forall_mem_constantDeal.mpr ⟨by decide, by decide⟩
  indices_nodup := by decide

/-- Two accepted sub-shares for a threshold of two that are no shares of zero. -/
theorem constantDeal_not_zero :
    AcceptedDeal Curve.curve43 (fun _ => oneDigest) (nodeName 3) 1
        (some (js "0x" ++ bytesToHex (Curve.curve43.encode Curve.curve43.BASE))) constantDeal ∧
      2 ≤ constantDeal.length ∧ ¬ SharesOfZero Curve.curve43 2 constantDeal := by
  have hone : ∀ e ∈ constantDeal, bigintOfString e.2.subShare = .ok 1 :=
    forall_mem_constantDeal.mpr ⟨by decide, by decide⟩
  exact ⟨constantDeal_accepted, by decide,
    not_sharesOfZero Curve.scalar_one.1 Curve.scalar_one.2 hone constantDeal_accepted.indices_nodup
      (by decide) (by decide)⟩

end BioFire.KeyRefresh
