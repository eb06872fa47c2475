import BioFire.Curve
import BioFire.LagrangeCoefficient

/-!
# Partial signatures (`src/lib/crypto/secp256k1.ts`)

`generatePartialSignature`: the signature of one scalar with a given nonce.

* `generatePartialSignature_ok`: the numbers it computes, as residues;
* `partial_signature_verifies`: they satisfy the verification equation.
-/

namespace BioFire.Secp256k1

structure PartialSignature where
  r : ℤ
  s : ℤ
  R : Bytes

/-- `bytesToBigInt` of this file: without bytes there is no number to read. -/
def bytesToBigInt (bytes : Bytes) : Except JSError ℤ :=
  if bytes = [] then .error ⟨.SyntaxError, js "Cannot convert 0x to a BigInt"⟩
  else .ok (BioFire.bytesToBigInt bytes)

variable {G : Type} [AddCommGroup G] [DecidableEq G]

def generatePartialSignature (curve : Curve G) (privateShare : ℤ) (messageHash : Bytes)
    (nonce : ℤ) : Except JSError PartialSignature := do
  let R ← curve.multiply curve.BASE nonce
  let Rbytes ← curve.toRawBytes R
  let r := modN curve.CURVE_ORDER (curve.x R)
  let z ← bytesToBigInt messageHash
  let kInv ← modInverseOrder curve.CURVE_ORDER nonce
  let rx := modN curve.CURVE_ORDER (r * privateShare)
  let z_plus_rx := modN curve.CURVE_ORDER (z + rx)
  let s := modN curve.CURVE_ORDER (kInv * z_plus_rx)
  return ⟨r, s, Rbytes⟩

variable {curve : Curve G} {d k : ℤ} {messageHash : Bytes}

section

omit [DecidableEq G]

theorem cast_ne_zero (h₁ : 1 ≤ k) (h₂ : k < curve.n) : (k : ZMod curve.n) ≠ 0 := by
  rw [Ne, ZMod.intCast_zmod_eq_zero_iff_dvd]
  intro hdvd
  exact absurd (Int.le_of_dvd (by omega) hdvd) (by omega)

theorem zsmul_BASE_ne_zero (h₁ : 1 ≤ k) (h₂ : k < curve.n) : k • curve.BASE ≠ 0 := by
  rw [curve.zsmul_BASE, Ne, curve.point_eq_zero_iff]
  exact cast_ne_zero h₁ h₂

end

/-- The numbers of the signature, in the words of the source. -/
def signatureOf (curve : Curve G) (privateShare z kInv : ℤ) (R : G) : PartialSignature :=
  let r := modN curve.CURVE_ORDER (curve.x R)
  ⟨r, modN curve.CURVE_ORDER (kInv * modN curve.CURVE_ORDER
    (z + modN curve.CURVE_ORDER (r * privateShare))), curve.encode R⟩

/-- Every nonce of the range and every hash that is not empty give a signature. -/
theorem generatePartialSignature_eq (hk₁ : 1 ≤ k) (hk : k < curve.n) (hhash : messageHash ≠ []) :
    ∃ kInv, modInverseOrder curve.CURVE_ORDER k = .ok kInv ∧
      generatePartialSignature curve d messageHash k =
        .ok (signatureOf curve d (BioFire.bytesToBigInt messageHash) kInv (k • curve.BASE)) := by
  obtain ⟨kInv, hkInv⟩ := modInverseOrder_ok_iff.mpr (cast_ne_zero hk₁ hk)
  refine ⟨kInv, hkInv, ?_⟩
  simp only [generatePartialSignature, curve.multiply_ok hk₁ hk,
    curve.toRawBytes_ok (zsmul_BASE_ne_zero hk₁ hk), bytesToBigInt, if_neg hhash, hkInv, bind,
    Except.bind]
  rfl

/-- **What `generatePartialSignature` computes.** -/
theorem generatePartialSignature_ok (hk₁ : 1 ≤ k) (hk : k < curve.n) (hhash : messageHash ≠ []) :
    ∃ signature, generatePartialSignature curve d messageHash k = .ok signature ∧
      signature.r = curve.x (k • curve.BASE) % curve.n ∧
      (0 ≤ signature.s ∧ signature.s < curve.n) ∧
      (signature.s : ZMod curve.n) = (k : ZMod curve.n)⁻¹ *
        (BioFire.bytesToBigInt messageHash + signature.r * d) := by
  obtain ⟨kInv, hkInv, hrun⟩ := generatePartialSignature_eq hk₁ hk hhash
  have hpos : (0 : ℤ) < curve.CURVE_ORDER := order_pos
  refine ⟨_, hrun, modN_eq hpos _, ?_, ?_⟩
  · rw [signatureOf]
    dsimp only
    rw [modN_eq hpos]
    exact ⟨Int.emod_nonneg _ hpos.ne', Int.emod_lt_of_pos _ hpos⟩
  · rw [signatureOf]
    simp only [cast_modN, Int.cast_mul, Int.cast_add, cast_modInverseOrder hkInv]

/-- **The verification equation.** With `w` the inverse of `s`, the point
`w (z BASE + r (d BASE))` is the nonce's, whose x coordinate is `r`. -/
theorem partial_signature_verifies (curve : Curve G) (d k : ℤ) (messageHash : Bytes)
    (hk : 1 ≤ k ∧ k < curve.n) (hhash : messageHash ≠ []) :
    ∃ signature, generatePartialSignature curve d messageHash k = .ok signature ∧
      (signature.r ≠ 0 → signature.s ≠ 0 →
        0 < signature.s ∧ signature.s < curve.n ∧
        (∃ w, w * signature.s ≡ 1 [ZMOD curve.n]) ∧
        (∀ w, w * signature.s ≡ 1 [ZMOD curve.n] →
          w • (BioFire.bytesToBigInt messageHash • curve.BASE +
            signature.r • d • curve.BASE) = k • curve.BASE) ∧
        curve.x (k • curve.BASE) % curve.n = signature.r ∧
        curve.Verifies (d • curve.BASE) (BioFire.bytesToBigInt messageHash) signature.r
          signature.s) := by
  obtain ⟨hk₁, hk⟩ := hk
  obtain ⟨signature, hrun, hr, ⟨hs₀, hs⟩, hequation⟩ :=
    generatePartialSignature_ok (d := d) hk₁ hk hhash
  refine ⟨signature, hrun, fun hr₀ hs₁ => ?_⟩
  have hnonce := cast_ne_zero hk₁ hk
  have hspos : 0 < signature.s := lt_of_le_of_ne hs₀ hs₁.symm
  have hsCast : (signature.s : ZMod curve.n) ≠ 0 := cast_ne_zero hspos hs
  have hsum : (BioFire.bytesToBigInt messageHash + signature.r * d : ZMod curve.n) =
      k * signature.s := by
    rw [hequation, mul_inv_cancel_left₀ hnonce]
  obtain ⟨w, hw⟩ : ∃ w : ℤ, w * signature.s ≡ 1 [ZMOD curve.n] := by
    refine ⟨((signature.s : ZMod curve.n)⁻¹).val, (ZMod.intCast_eq_intCast_iff _ _ _).mp ?_⟩
    push_cast
    rw [ZMod.natCast_zmod_val, inv_mul_cancel₀ hsCast]
  have hpoint : ∀ w, w * signature.s ≡ 1 [ZMOD curve.n] →
      w • (BioFire.bytesToBigInt messageHash • curve.BASE + signature.r • d • curve.BASE) =
        k • curve.BASE := by
    intro w hw
    have hws : (w : ZMod curve.n) * signature.s = 1 := by
      have hcast := (ZMod.intCast_eq_intCast_iff _ _ _).mpr hw
      simpa using hcast
    rw [curve.zsmul_BASE, curve.zsmul_BASE, curve.zsmul_point, ← curve.point_add, hsum,
      curve.zsmul_point, mul_left_comm, hws, mul_one, ← curve.zsmul_BASE]
  have hrpos : 1 ≤ signature.r := by
    have hnonneg := Int.emod_nonneg (curve.x (k • curve.BASE)) (order_pos (n := curve.n)).ne'
    omega
  have hrlt : signature.r < curve.n := by
    rw [hr]
    exact Int.emod_lt_of_pos _ order_pos
  refine ⟨hspos, hs, ⟨w, hw⟩, hpoint, hr.symm, ?_⟩
  rw [curve.zsmul_BASE, curve.verifies_iff hrpos hrlt hspos hs, hsum, mul_assoc,
    mul_inv_cancel₀ hsCast, mul_one, ← curve.zsmul_BASE]
  exact ⟨mul_ne_zero hnonce hsCast, hr.symm⟩

/-- On the group of order 31: the key 3, the nonce 2 and the hash 9. -/
theorem partial_signature_verifies_small :
    generatePartialSignature Curve.curve43 3 [9] 2 = .ok ⟨7, 15, [4, 7, 7]⟩ ∧
      Curve.curve43.Verifies ((3 : ℤ) • Curve.curve43.BASE) 9 7 15 := by
  have hsigned : generatePartialSignature Curve.curve43 3 [9] 2 = .ok ⟨7, 15, [4, 7, 7]⟩ := by
    with_unfolding_all rfl
  obtain ⟨signature, hrun, hverifies⟩ := partial_signature_verifies Curve.curve43 3 2 [9]
    (by decide) (by decide)
  obtain rfl := Except.ok.inj (hsigned.symm.trans hrun)
  obtain ⟨-, -, -, -, -, hverified⟩ := hverifies (by decide) (by decide)
  exact ⟨hsigned, hverified⟩

end BioFire.Secp256k1
