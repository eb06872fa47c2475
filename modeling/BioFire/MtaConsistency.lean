import BioFire.Curve
import BioFire.JSValue

/-!
# The third round of multiplication to addition (`src/lib/crypto/mta_zkp.ts`)

`executeMtARound3` decodes both public keys and uses neither: it compares the sum of the shares
with the commitment that it is given. Multiplication refuses a share that is zero.

* `executeMtARound3_eq_true_iff`: what is compared;
* `mta_round3_iff`: when this is a check of the product.
-/

namespace BioFire

section

variable {G : Type} [AddCommGroup G] (curve : Curve G)

/-- `ProjectivePoint.fromHex(text.replace('0x', ''))` -/
def readPoint (text : JSString) : Except JSError G := do
  curve.fromHex (← hexToBytes (removeHexPrefix text))

variable [DecidableEq G]

/-- The body of the `try`. -/
def checkMtARound3 (publicKeyX publicKeyY : JSString) (alpha beta nonceCommitment : ℤ) :
    Except JSError Bool := do
  let _X ← readPoint curve publicKeyX
  let _Y ← readPoint curve publicKeyY
  let alphaG ← curve.multiply curve.BASE alpha
  let betaG ← curve.multiply curve.BASE beta
  let sum := alphaG + betaG
  let expected ← curve.multiply curve.BASE nonceCommitment
  return decide (sum = expected)

def executeMtARound3 (publicKeyX publicKeyY : JSString) (alpha beta nonceCommitment : ℤ) : Bool :=
  (checkMtARound3 curve publicKeyX publicKeyY alpha beta nonceCommitment).toOption.getD false

/-- The round accepts only shares of `x * y`, and accepts them when it is given the product. -/
def ChecksProduct (publicKeyX publicKeyY : JSString) (x y alpha beta nonceCommitment : ℤ) : Prop :=
  (executeMtARound3 curve publicKeyX publicKeyY alpha beta nonceCommitment = true →
      alpha + beta ≡ x * y [ZMOD curve.n]) ∧
    (alpha + beta ≡ x * y [ZMOD curve.n] → nonceCommitment = x * y % curve.n →
      executeMtARound3 curve publicKeyX publicKeyY alpha beta nonceCommitment = true)

variable {curve} {publicKeyX publicKeyY : JSString}

/-- **What the round compares.** -/
theorem executeMtARound3_eq_true_iff {X Y : G} (hX : readPoint curve publicKeyX = .ok X)
    (hY : readPoint curve publicKeyY = .ok Y) {alpha beta nonceCommitment : ℤ} :
    executeMtARound3 curve publicKeyX publicKeyY alpha beta nonceCommitment = true ↔
      (1 ≤ alpha ∧ alpha < curve.n) ∧ (1 ≤ beta ∧ beta < curve.n) ∧
        (1 ≤ nonceCommitment ∧ nonceCommitment < curve.n) ∧
        alpha + beta ≡ nonceCommitment [ZMOD curve.n] := by
  rw [executeMtARound3, toOption_getD_eq_true_iff]
  constructor
  · intro hcheck
    rw [checkMtARound3] at hcheck
    obtain ⟨_, -, hcheck⟩ := bind_eq_ok hcheck
    obtain ⟨_, -, hcheck⟩ := bind_eq_ok hcheck
    obtain ⟨alphaG, halpha, hcheck⟩ := bind_eq_ok hcheck
    obtain ⟨betaG, hbeta, hcheck⟩ := bind_eq_ok hcheck
    obtain ⟨expected, hexpected, hcheck⟩ := bind_eq_ok hcheck
    obtain ⟨ha₁, ha, rfl⟩ := curve.multiply_eq_ok halpha
    obtain ⟨hb₁, hb, rfl⟩ := curve.multiply_eq_ok hbeta
    obtain ⟨hn₁, hn, rfl⟩ := curve.multiply_eq_ok hexpected
    have hsum := of_decide_eq_true (Except.ok.inj hcheck)
    rw [← add_smul, curve.zsmul_BASE_eq_iff, ZMod.intCast_eq_intCast_iff] at hsum
    exact ⟨⟨ha₁, ha⟩, ⟨hb₁, hb⟩, ⟨hn₁, hn⟩, hsum⟩
  · rintro ⟨⟨ha₁, ha⟩, ⟨hb₁, hb⟩, ⟨hn₁, hn⟩, hsum⟩
    have hsum' : alpha • curve.BASE + beta • curve.BASE = nonceCommitment • curve.BASE := by
      rwa [← add_smul, curve.zsmul_BASE_eq_iff, ZMod.intCast_eq_intCast_iff]
    simp only [checkMtARound3, hX, hY, curve.multiply_ok ha₁ ha, curve.multiply_ok hb₁ hb,
      curve.multiply_ok hn₁ hn, bind, Except.bind, hsum']
    simp [pure, Except.pure]

omit [DecidableEq G] in
theorem product_pos {x y : ℤ} (hx₁ : 1 ≤ x) (hx : x < curve.n) (hy₁ : 1 ≤ y) (hy : y < curve.n) :
    1 ≤ x * y % curve.n := by
  have hscalar : ∀ k : ℤ, 1 ≤ k → k < curve.n → (k : ZMod curve.n) ≠ 0 := by
    intro k hk₁ hk hzero
    have hdvd := (ZMod.intCast_zmod_eq_zero_iff_dvd k curve.n).mp hzero
    exact absurd (Int.le_of_dvd (by omega) hdvd) (by omega)
  have hndvd : ¬(curve.n : ℤ) ∣ x * y := by
    rw [← ZMod.intCast_zmod_eq_zero_iff_dvd, Int.cast_mul]
    exact mul_ne_zero (hscalar x hx₁ hx) (hscalar y hy₁ hy)
  have hne : x * y % curve.n ≠ 0 := fun h => hndvd (Int.dvd_of_emod_eq_zero h)
  have hpos := curve.prime.pos
  have hnonneg := Int.emod_nonneg (x * y) (show (curve.n : ℤ) ≠ 0 by omega)
  omega

theorem modEq_iff_eq {n k l : ℤ} (hk₀ : 0 ≤ k) (hk : k < n) (hl₀ : 0 ≤ l) (hl : l < n) :
    k ≡ l [ZMOD n] ↔ k = l := by
  rw [Int.ModEq, Int.emod_eq_of_lt hk₀ hk, Int.emod_eq_of_lt hl₀ hl]

/-- **The consistency check.** Given the product, the round is a check of it unless one share is
zero and the other the product; given another number, unless that number is a sum of shares that
can be multiplied. -/
theorem mta_round3_iff {x y : ℤ} (hX : readPoint curve publicKeyX = .ok (x • curve.BASE))
    (hY : readPoint curve publicKeyY = .ok (y • curve.BASE))
    (hx₁ : 1 ≤ x) (hx : x < curve.n) (hy₁ : 1 ≤ y) (hy : y < curve.n)
    {alpha beta : ℤ} (ha₀ : 0 ≤ alpha) (ha : alpha < curve.n) (hb₀ : 0 ≤ beta)
    (hb : beta < curve.n) (nonceCommitment : ℤ) :
    ChecksProduct curve publicKeyX publicKeyY x y alpha beta nonceCommitment ↔
      (nonceCommitment = x * y % curve.n →
        (alpha, beta) ≠ (0, nonceCommitment) ∧ (alpha, beta) ≠ (nonceCommitment, 0)) ∧
      (nonceCommitment ≠ x * y % curve.n → 1 ≤ nonceCommitment → nonceCommitment < curve.n →
        alpha ≠ 0 → beta ≠ 0 → ¬alpha + beta ≡ nonceCommitment [ZMOD curve.n]) := by
  have hp₁ := product_pos hx₁ hx hy₁ hy
  have hp : x * y % curve.n < curve.n := Int.emod_lt_of_pos _ (by exact_mod_cast curve.prime.pos)
  have hproduct : x * y % curve.n ≡ x * y [ZMOD curve.n] := Int.mod_modEq _ _
  rw [ChecksProduct, executeMtARound3_eq_true_iff hX hY]
  by_cases hnonce : nonceCommitment = x * y % curve.n
  · subst hnonce
    constructor
    · rintro ⟨-, hcomplete⟩
      refine ⟨fun _ => ⟨?_, ?_⟩, fun hne => absurd rfl hne⟩
      · rintro ⟨rfl, rfl⟩
        obtain ⟨⟨hzero, -⟩, -⟩ := hcomplete (by rwa [zero_add]) rfl
        omega
      · rintro ⟨rfl, rfl⟩
        obtain ⟨-, ⟨hzero, -⟩, -⟩ := hcomplete (by rwa [add_zero]) rfl
        omega
    · rintro ⟨hshares, -⟩
      obtain ⟨hleft, hright⟩ := hshares rfl
      refine ⟨fun haccepted => haccepted.2.2.2.trans hproduct, fun hsum _ => ?_⟩
      have hsum' := hsum.trans hproduct.symm
      have ha₁ : alpha ≠ 0 := by
        rintro rfl
        rw [zero_add, modEq_iff_eq hb₀ hb (by omega) hp] at hsum'
        exact hleft (by rw [hsum'])
      have hb₁ : beta ≠ 0 := by
        rintro rfl
        rw [add_zero, modEq_iff_eq ha₀ ha (by omega) hp] at hsum'
        exact hright (by rw [hsum'])
      exact ⟨⟨by omega, ha⟩, ⟨by omega, hb⟩, ⟨hp₁, hp⟩, hsum'⟩
  · constructor
    · rintro ⟨hsound, -⟩
      refine ⟨fun h => absurd h hnonce, fun _ hn₁ hn ha₁ hb₁ hsum => hnonce ?_⟩
      have haccepted := hsound ⟨⟨by omega, ha⟩, ⟨by omega, hb⟩, ⟨hn₁, hn⟩, hsum⟩
      rw [← modEq_iff_eq (by omega) hn (by omega) hp]
      exact hsum.symm.trans (haccepted.trans hproduct.symm)
    · rintro ⟨-, hother⟩
      refine ⟨?_, fun _ h => absurd h hnonce⟩
      rintro ⟨⟨ha₁, -⟩, ⟨hb₁, -⟩, ⟨hn₁, hn⟩, hsum⟩
      exact absurd hsum (hother hnonce hn₁ hn (by omega) (by omega))

end

/-! ## Two keys -/

/-- The texts of the double and the triple of the base point. -/
def doubleText : JSString := js "0x040707"
def tripleText : JSString := js "0x042315"

theorem readPoint_texts : readPoint Curve.curve43 doubleText = .ok ((2 : ℤ) • Curve.curve43.BASE) ∧
    readPoint Curve.curve43 tripleText = .ok ((3 : ℤ) • Curve.curve43.BASE) := by decide

theorem mta_round3_iff_six :
    ChecksProduct Curve.curve43 doubleText tripleText 2 3 2 4 6 ↔
      ((6 : ℤ) = 2 * 3 % Curve.curve43.n → ((2, 4) : ℤ × ℤ) ≠ (0, 6) ∧ ((2, 4) : ℤ × ℤ) ≠ (6, 0)) ∧
      ((6 : ℤ) ≠ 2 * 3 % Curve.curve43.n → (1 : ℤ) ≤ 6 → (6 : ℤ) < Curve.curve43.n →
        (2 : ℤ) ≠ 0 → (4 : ℤ) ≠ 0 → ¬(2 : ℤ) + 4 ≡ 6 [ZMOD Curve.curve43.n]) :=
  mta_round3_iff readPoint_texts.1 readPoint_texts.2 (by decide) (by decide) (by decide) (by decide)
    (by decide) (by decide) (by decide) (by decide) 6

/-- For the product 6 the shares 1 and 1 pass with the commitment 2, and the shares 0 and 6 do not
pass with the commitment 6. -/
theorem round3_accepts_other_sum :
    ¬ChecksProduct Curve.curve43 doubleText tripleText 2 3 1 1 2 ∧
      ¬ChecksProduct Curve.curve43 doubleText tripleText 2 3 0 6 6 := by
  constructor
  · rintro ⟨hsound, -⟩
    exact absurd (hsound (by decide)) (by decide)
  · rintro ⟨-, hcomplete⟩
    exact absurd (hcomplete (by decide) (by decide)) (by decide)

end BioFire
