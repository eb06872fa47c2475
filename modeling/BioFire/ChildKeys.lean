import BioFire.KeySharing
import BioFire.SessionGuard

/-!
# Child keys (`src/lib/crypto/address_derivation.ts`)

A child key is the parent key plus a tweak, which the chain code and the index determine. Every
party adds the tweak to its share; the public key is moved by the tweak's multiple of the base
point. `hmac` is a parameter.

* `deriveChildKeyShare_cast`: the child shares are values of the shared polynomial plus the tweak;
* `child_keys_commute`: any `t` child shares combine to the key of the child public key.
-/

namespace BioFire.ChildKeys

open Mpc Sharing
open SessionGuard (dropHexMark dropHexMark_append)

/-- What is hashed of the index: 32 zero bytes and four of the index. -/
def derivationData (index : JSNumber) : Bytes :=
  List.replicate 32 0 ++ [byteOf index.truncate 24, byteOf index.truncate 16,
    byteOf index.truncate 8, byteOf index.truncate 0]

section

variable (hmac : Bytes → Bytes → Digest) (q : ℤ)

/-- The tweak, which both functions compute by the same lines. -/
def childTweak (chainCode : Bytes) (index : JSNumber) : ℤ :=
  let hmacOutput := hmac chainCode (derivationData index)
  let tweak : ℕ := hmacOutput.1.foldl (fun tweak b => tweak <<< 8 ||| b.toNat) 0
  (tweak : ℤ).tmod q

structure ChildKeyShare where
  childShare : ℤ
  tweak : ℤ

def deriveChildKeyShare (parentShare : ℤ) (chainCode : Bytes) (index : JSNumber) :
    ChildKeyShare :=
  let tweak := childTweak hmac q chainCode index
  ⟨(parentShare + tweak).tmod q, tweak⟩

end

variable {G : Type} [AddCommGroup G]

section

variable (curve : Curve G) (hmac : Bytes → Bytes → Digest) (chainCode : Bytes) (index : JSNumber)

def deriveChildPublicKey [DecidableEq G] (parentPubKeyHex : JSString) : Except JSError JSString := do
  let parentPoint ← curve.fromHex (← hexToBytes (dropHexMark parentPubKeyHex))
  let tweakPoint ← curve.multiply curve.BASE (childTweak hmac curve.CURVE_ORDER chainCode index)
  pointHex curve (parentPoint + tweakPoint)

theorem childTweak_nonneg : 0 ≤ childTweak hmac curve.CURVE_ORDER chainCode index := by
  unfold childTweak
  exact Int.tmod_nonneg _ (Int.natCast_nonneg _)

theorem childTweak_lt : childTweak hmac curve.CURVE_ORDER chainCode index < curve.n := by
  unfold childTweak
  exact Int.tmod_lt_of_pos _ order_pos

end

/-! ## Shares and public keys -/

variable {curve : Curve G} {hmac : Bytes → Bytes → Digest} {chainCode : Bytes} {index : JSNumber}

/-- **Child shares.** The child of a value of a polynomial is the value plus the tweak. -/
theorem deriveChildKeyShare_cast (f : Polynomial (ZMod curve.n)) (x : ZMod curve.n) :
    ((deriveChildKeyShare hmac curve.CURVE_ORDER (f.eval x).val chainCode index).childShare :
        ZMod curve.n) =
      (f + Polynomial.C (childTweak hmac curve.CURVE_ORDER chainCode index : ZMod curve.n)).eval
        x := by
  rw [deriveChildKeyShare, cast_tmod]
  simp

/-- **Child public keys.** The child of the public key of `a` is that of `a` plus the tweak. -/
theorem deriveChildPublicKey_eq [DecidableEq G] {a : ZMod curve.n} (ha : a ≠ 0)
    (htweak : childTweak hmac curve.CURVE_ORDER chainCode index ≠ 0) :
    deriveChildPublicKey curve hmac chainCode index
        (js "0x" ++ bytesToHex (curve.encode (curve.point a))) =
      pointHex curve (curve.point
        (a + (childTweak hmac curve.CURVE_ORDER chainCode index : ZMod curve.n))) := by
  have hnonneg := childTweak_nonneg curve hmac chainCode index
  have hpoint : curve.point a ≠ 0 := (curve.point_eq_zero_iff a).not.mpr ha
  have htweakPoint := curve.multiply_ok (P := curve.BASE) (by omega)
    (childTweak_lt curve hmac chainCode index)
  rw [deriveChildPublicKey, dropHexMark_append, hexToBytes_bytesToHex]
  simp only [bind, Except.bind, curve.fromHex_encode hpoint, htweakPoint, curve.zsmul_BASE,
    curve.point_add]

/-! ## Derivation of a shared key -/

/-- A call that returns has a threshold of at least one: the sum of no coefficients is zero. -/
theorem threshold_pos {state state' : DkgState} {t n : ℕ}
    {random : DkgRandomness curve.CURVE_ORDER} {session : DKGSession}
    (h : Executed curve state state' t n random session) : 1 ≤ t := by
  by_contra hzero
  obtain rfl : t = 0 := by omega
  apply h.secret_ne_zero
  have hdeg := degree_partyPolynomials_lt 0 n random.coefficient
  rw [Polynomial.degree_lt_iff_coeff_zero] at hdeg
  rw [← Polynomial.coeff_zero_eq_eval_zero]
  exact hdeg 0 le_rfl

variable [DecidableEq G]

/-- **Derivation commutes with sharing.** The children of any `t` stored shares combine to a
scalar whose public key is the child of the master public key. -/
theorem child_keys_commute {state state' : DkgState} {t n : ℕ} {curveType : JSString}
    {random : DkgRandomness curve.CURVE_ORDER} {now : ℤ} {session : DKGSession}
    (hn : n < curve.n) (hids : ((selectedNodes state n).map NodeConfig.id).Nodup)
    (h : executeDKG curve state t n curveType random now = (state', .ok session))
    {positions : List ℕ} (hlen : positions.length = t) (hnodup : positions.Nodup)
    (hpos : ∀ i ∈ positions, 1 ≤ i ∧ i ≤ n)
    (htweak : childTweak hmac curve.CURVE_ORDER chainCode index ≠ 0)
    (hchild : (sharedSecret curve n random.coefficient +
      childTweak hmac curve.CURVE_ORDER chainCode index) % curve.n ≠ 0) :
    ∃ (shares : List ℤ) (childKey : ℤ) (childPublicKey : JSString),
      positions.map (storedShare state' session) = shares.map some ∧
      combineSignatures curve.CURVE_ORDER (shares.map fun share =>
          (deriveChildKeyShare hmac curve.CURVE_ORDER share chainCode index).childShare)
        (positions.map Int.ofNat) = .ok childKey ∧
      pointHex curve (childKey • curve.BASE) = .ok childPublicKey ∧
      deriveChildPublicKey curve hmac chainCode index session.masterPublicKey =
        .ok childPublicKey := by
  have he := executeDKG_ok hids h
  have ht := threshold_pos he
  obtain ⟨f, hf⟩ : ∃ f, f = aggregate curve.n (partyPolynomials curve t n random.coefficient) :=
    ⟨_, rfl⟩
  obtain ⟨c, hc⟩ : ∃ c : ZMod curve.n,
      c = (childTweak hmac curve.CURVE_ORDER chainCode index : ZMod curve.n) := ⟨_, rfl⟩
  have hdeg : (f + Polynomial.C c).degree < positions.length := by
    rw [hlen]
    refine (Polynomial.degree_add_le _ _).trans_lt (max_lt ?_ ?_)
    · rw [hf]
      exact degree_partyPolynomials_lt t n random.coefficient
    · exact Polynomial.degree_C_le.trans_lt (by exact_mod_cast ht)
  have hsecret : f.eval 0 + c ≠ 0 := by
    intro hzero
    apply hchild
    rw [← eval_zero_aggregate ht, ← hf, ← Int.dvd_iff_emod_eq_zero,
      ← ZMod.intCast_zmod_eq_zero_iff_dvd, Int.cast_add, Int.cast_natCast, ZMod.natCast_zmod_val,
      ← hc]
    exact hzero
  obtain ⟨shares, hshares⟩ : ∃ shares : List ℤ,
      shares = positions.map (shareAt curve t n random.coefficient) := ⟨_, rfl⟩
  have hstored : positions.map (storedShare state' session) = shares.map some := by
    rw [hshares, List.map_map]
    exact List.map_congr_left fun i hi => he.storedShare_eq (hpos i hi).1 (hpos i hi).2
  have hcombine : combineSignatures curve.CURVE_ORDER (shares.map fun share =>
      (deriveChildKeyShare hmac curve.CURVE_ORDER share chainCode index).childShare)
      (positions.map Int.ofNat) = .ok (((f + Polynomial.C c).eval 0).val : ℤ) := by
    refine combineSignatures_interpolates (by simp [hshares])
      (injOn_positions hnodup fun i hi => (hpos i hi).2.trans_lt hn) (by simpa using hdeg) ?_
    intro i hi
    have hi' : i < positions.length := by simpa using hi
    rw [indexResidue_positions, Function.comp, List.getD_eq_getElem _ _ (by simpa [hshares] using hi'),
      List.getD_eq_getElem _ _ hi', List.getElem_map, hc, ← deriveChildKeyShare_cast]
    simp [hshares, shareAt_eq, hf]
  have hchildPoint : curve.point ((f + Polynomial.C c).eval 0) ≠ 0 := by
    rw [Ne, curve.point_eq_zero_iff, Polynomial.eval_add, Polynomial.eval_C]
    exact hsecret
  refine ⟨shares, _, js "0x" ++ bytesToHex (curve.encode (curve.point
    ((f + Polynomial.C c).eval 0))), hstored, hcombine, ?_, ?_⟩
  · rw [curve.zsmul_BASE, Int.cast_natCast, ZMod.natCast_zmod_val, pointHex,
      curve.toRawBytes_ok hchildPoint]
    rfl
  · rw [he.masterPublicKey_eq, ← hf, deriveChildPublicKey_eq (hf ▸ he.secret_ne_zero) htweak, ← hc,
      pointHex, curve.toRawBytes_ok (by simpa using hchildPoint)]
    simp [bind, Except.bind, pure, Except.pure]

/-- With a hash that is the number 1, the tweak is 1. -/
theorem child_keys_commute_twoNodes : ∃ state' session,
    executeDKG Curve.curve43 emptyState 2 2 (js "secp256k1") twoNodes 0 = (state', .ok session) ∧
    ∃ (shares : List ℤ) (childKey : ℤ) (childPublicKey : JSString),
      [2, 1].map (storedShare state' session) = shares.map some ∧
      combineSignatures Curve.curve43.CURVE_ORDER (shares.map fun share =>
          (deriveChildKeyShare (fun _ _ => oneDigest) Curve.curve43.CURVE_ORDER share []
            (.ofInt 7)).childShare)
        ([2, 1].map Int.ofNat) = .ok childKey ∧
      pointHex Curve.curve43 (childKey • Curve.curve43.BASE) = .ok childPublicKey ∧
      deriveChildPublicKey Curve.curve43 (fun _ _ => oneDigest) [] (.ofInt 7)
        session.masterPublicKey = .ok childPublicKey := by
  obtain ⟨state', session, h⟩ : ∃ state' session, executeDKG Curve.curve43 emptyState 2 2
      (js "secp256k1") twoNodes 0 = (state', .ok session) := ⟨_, _, rfl⟩
  exact ⟨state', session, h, child_keys_commute (by decide) (by decide) h rfl (by decide)
    (by decide) (by decide) (by decide)⟩

end BioFire.ChildKeys
