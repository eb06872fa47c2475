import BioFire.ModularArithmetic
import Mathlib.Algebra.Field.ZMod
import Mathlib.Tactic.NormNum.Prime

/-!
# The curve

What the model uses of `@noble/curves`: a cyclic group of prime order with some
x-coordinate map and an encoding of its nonzero points. Multiplication refuses
scalars outside `[1, n)`, encoding refuses the zero point.

* `Curve.point`: the multiple of the base point by a residue, an isomorphism of
  groups (`point_add`, `point_eq_zero_iff`, `zsmul_BASE`);
* `Curve.Verifies`: the ECDSA verification equation;
* `Curve.verifies_iff`: the equation in terms of residues.
-/

namespace BioFire

structure Curve (G : Type) [AddCommGroup G] where
  /-- `CURVE.n` -/
  n : ℕ
  prime : n.Prime
  BASE : G
  zsmul_BASE_eq_zero : ∀ k : ℤ, k • BASE = 0 ↔ (n : ℤ) ∣ k
  generates : ∀ P : G, ∃ k : ℤ, k • BASE = P
  /-- The affine x coordinate. -/
  x : G → ℤ
  /-- The uncompressed encoding. -/
  encode : G → Bytes
  decode : Bytes → Option G
  decode_encode : ∀ P, P ≠ 0 → decode (encode P) = some P

namespace Curve

variable {G : Type} [AddCommGroup G] (curve : Curve G)

instance : Fact curve.n.Prime := ⟨curve.prime⟩

/-- `CURVE_ORDER`. -/
abbrev CURVE_ORDER : ℤ := curve.n

/-- `P.multiply(k)`. -/
def multiply (P : G) (k : ℤ) : Except JSError G :=
  if 1 ≤ k ∧ k < curve.n then .ok (k • P) else .error externalError

/-- `P.toRawBytes(false)`. -/
def toRawBytes [DecidableEq G] (P : G) : Except JSError Bytes :=
  if P = 0 then .error externalError else .ok (curve.encode P)

/-- `ProjectivePoint.fromHex(bytes)`. -/
def fromHex (bytes : Bytes) : Except JSError G :=
  match curve.decode bytes with
  | none => .error externalError
  | some P => .ok P

/-! ## Residues as scalars -/

/-- The multiple of the base point by a residue. -/
def point (a : ZMod curve.n) : G := (a.val : ℤ) • curve.BASE

theorem zsmul_BASE_eq_iff (k l : ℤ) :
    k • curve.BASE = l • curve.BASE ↔ (k : ZMod curve.n) = l := by
  rw [← sub_eq_zero, ← sub_smul, curve.zsmul_BASE_eq_zero, ← ZMod.intCast_zmod_eq_zero_iff_dvd,
    Int.cast_sub, sub_eq_zero]

theorem zsmul_BASE (k : ℤ) : k • curve.BASE = curve.point k := by
  rw [point, zsmul_BASE_eq_iff]
  simp

theorem zsmul_point (k : ℤ) (a : ZMod curve.n) : k • curve.point a = curve.point (k * a) := by
  rw [point, ← mul_smul, zsmul_BASE]
  simp

theorem point_add (a b : ZMod curve.n) : curve.point (a + b) = curve.point a + curve.point b := by
  rw [point, point, point, ← add_smul, zsmul_BASE_eq_iff]
  simp

theorem point_eq_zero_iff (a : ZMod curve.n) : curve.point a = 0 ↔ a = 0 := by
  rw [point, curve.zsmul_BASE_eq_zero, ← ZMod.intCast_zmod_eq_zero_iff_dvd]
  simp

theorem multiply_ok {P : G} {k : ℤ} (h₁ : 1 ≤ k) (h₂ : k < curve.n) :
    curve.multiply P k = .ok (k • P) := if_pos ⟨h₁, h₂⟩

theorem multiply_eq_ok {P Q : G} {k : ℤ} (h : curve.multiply P k = .ok Q) :
    1 ≤ k ∧ k < curve.n ∧ Q = k • P := by
  unfold multiply at h
  split at h
  next hk => exact ⟨hk.1, hk.2, (Except.ok.inj h).symm⟩
  next => cases h

theorem toRawBytes_eq_ok [DecidableEq G] {P : G} {bytes : Bytes}
    (h : curve.toRawBytes P = .ok bytes) : P ≠ 0 ∧ bytes = curve.encode P := by
  unfold toRawBytes at h
  split at h
  next => cases h
  next hP => exact ⟨hP, (Except.ok.inj h).symm⟩

theorem toRawBytes_ok [DecidableEq G] {P : G} (h : P ≠ 0) :
    curve.toRawBytes P = .ok (curve.encode P) := if_neg h

theorem zsmul_BASE_ne_zero {k : ℤ} (h₁ : 1 ≤ k) (hn : k < curve.n) : k • curve.BASE ≠ 0 := by
  rw [Ne, curve.zsmul_BASE_eq_zero]
  intro hdvd
  exact absurd (Int.le_of_dvd (by omega) hdvd) (by omega)

theorem multiply_BASE_ok [DecidableEq G] {k : ℤ} (h₁ : 1 ≤ k) (hn : k < curve.n) :
    curve.multiply curve.BASE k = .ok (k • curve.BASE) ∧
      curve.toRawBytes (k • curve.BASE) = .ok (curve.encode (k • curve.BASE)) :=
  ⟨curve.multiply_ok h₁ hn, curve.toRawBytes_ok (curve.zsmul_BASE_ne_zero h₁ hn)⟩

theorem fromHex_encode {P : G} (h : P ≠ 0) : curve.fromHex (curve.encode P) = .ok P := by
  rw [fromHex, curve.decode_encode P h]

/-! ## ECDSA -/

/-- The verification equation for the hash `z` and the signature `(r, s)` under
the public key `Q`. -/
def Verifies (Q : G) (z r s : ℤ) : Prop :=
  1 ≤ r ∧ r < curve.n ∧ 1 ≤ s ∧ s < curve.n ∧
    ∃ w : ℤ, w * s ≡ 1 [ZMOD curve.n] ∧
      (z * w) • curve.BASE + (r * w) • Q ≠ 0 ∧
      curve.x ((z * w) • curve.BASE + (r * w) • Q) % curve.n = r

/-- Under the public key of `d`, the point of the equation is `(z + r d) / s`. -/
theorem verifies_iff {d : ZMod curve.n} {z r s : ℤ} (hr₁ : 1 ≤ r) (hr : r < curve.n)
    (hs₁ : 1 ≤ s) (hs : s < curve.n) :
    curve.Verifies (curve.point d) z r s ↔
      (z + r * d : ZMod curve.n) ≠ 0 ∧
        curve.x (curve.point ((z + r * d) * (s : ZMod curve.n)⁻¹)) % curve.n = r := by
  have hs₀ : (s : ZMod curve.n) ≠ 0 := by
    rw [Ne, ZMod.intCast_zmod_eq_zero_iff_dvd]
    intro hdvd
    exact absurd (Int.le_of_dvd (by omega) hdvd) (by omega)
  have hpoint : ∀ w : ℤ, w * s ≡ 1 [ZMOD curve.n] →
      (z * w) • curve.BASE + (r * w) • curve.point d =
        curve.point ((z + r * d) * (s : ZMod curve.n)⁻¹) := by
    intro w hw
    have hws : (w : ZMod curve.n) * s = 1 := by
      have hcast := (ZMod.intCast_eq_intCast_iff _ _ _).mpr hw
      simpa using hcast
    rw [zsmul_BASE, zsmul_point, ← point_add, ← eq_inv_of_mul_eq_one_left hws]
    push_cast
    congr 1
    ring
  have hzero : curve.point ((z + r * d) * (s : ZMod curve.n)⁻¹) ≠ 0 ↔
      (z + r * d : ZMod curve.n) ≠ 0 := by
    rw [Ne, point_eq_zero_iff, mul_eq_zero, or_iff_left (inv_ne_zero hs₀)]
  obtain ⟨w, hw⟩ : ∃ w : ℤ, w * s ≡ 1 [ZMOD curve.n] := by
    refine ⟨((s : ZMod curve.n)⁻¹).val, (ZMod.intCast_eq_intCast_iff _ _ _).mp ?_⟩
    push_cast
    rw [ZMod.natCast_zmod_val, inv_mul_cancel₀ hs₀]
  constructor
  · rintro ⟨-, -, -, -, w, hw, hne, hx⟩
    rw [hpoint w hw] at hne hx
    exact ⟨hzero.mp hne, hx⟩
  · rintro ⟨hne, hx⟩
    refine ⟨hr₁, hr, hs₁, hs, w, hw, ?_⟩
    rw [hpoint w hw]
    exact ⟨hzero.mpr hne, hx⟩

/-! ## A small curve -/

/-- The points `k * BASE`, `1 ≤ k ≤ 30`, of `y² = x³ + 7` over the field of 43
elements, whose group has order 31. -/
def curve43Points : List (UInt8 × UInt8) :=
  [(2, 12), (7, 7), (35, 21), (21, 18), (12, 12), (29, 31), (25, 18), (32, 40), (20, 40), (42, 7),
    (40, 25), (37, 36), (13, 21), (34, 40), (38, 21), (38, 22), (34, 3), (13, 22), (37, 7),
    (40, 18), (42, 36), (20, 3), (32, 3), (25, 25), (29, 12), (12, 31), (21, 25), (35, 22),
    (7, 36), (2, 31)]

example : curve43Points.all fun P => P.2.toNat ^ 2 % 43 == (P.1.toNat ^ 3 + 7) % 43 := by decide

/-- The affine coordinates of a nonzero point. -/
def curve43Affine (P : ZMod 31) : UInt8 × UInt8 := curve43Points.getD (P.val - 1) (0, 0)

/-- That curve, with the point `k * BASE` written as the residue `k`. -/
def curve43 : Curve (ZMod 31) where
  n := 31
  prime := by norm_num
  BASE := 1
  zsmul_BASE_eq_zero k := by
    rw [zsmul_eq_mul, mul_one]
    exact ZMod.intCast_zmod_eq_zero_iff_dvd k 31
  generates P := ⟨P.val, by simp⟩
  x P := (curve43Affine P).1.toNat
  encode P := [4, (curve43Affine P).1, (curve43Affine P).2]
  decode
    | [4, x, y] => (List.range 31).tail.findSome? fun k =>
        if curve43Affine k = (x, y) then some (k : ZMod 31) else none
    | _ => none
  decode_encode := by decide

theorem scalar_one : 1 ≤ (1 : ℤ) ∧ (1 : ℤ) < curve43.CURVE_ORDER := by decide

theorem scalar_two : 1 ≤ (2 : ℤ) ∧ (2 : ℤ) < curve43.CURVE_ORDER := by decide

theorem scalar_three : 1 ≤ (3 : ℤ) ∧ (3 : ℤ) < curve43.CURVE_ORDER := by decide

end Curve

end BioFire
