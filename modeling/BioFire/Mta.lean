import BioFire.Paillier
import Mathlib.NumberTheory.LucasPrimality
import Mathlib.Tactic.NormNum.Prime

/-!
# Multiplication to addition

The model of `mta_zkp.ts`. Party B masks the product by encrypting `-beta`
modulo the Paillier modulus `n`, and party A reduces what it decrypts modulo the
curve order `q`. When `beta` exceeds `x * y` over the integers, the decrypted
number is `n + x * y - beta`, which is off by `n` modulo `q`.

* `mtaPlaintext_emod`: the number that party A decrypts;
* `mta_correct_iff`: the shares add up to `x * y` exactly when `beta ≤ x * y` or
  `q` divides `n`, for every run whose encryptions find their random number.
-/

namespace BioFire

structure MtAProof where
  commitment : JSString
  z : JSString
  w : JSString
  challenge : JSString
  isValid : Bool

structure MtARound1Output where
  ciphertext : ℤ
  proof : MtAProof

structure MtARound2Output where
  ciphertextK : ℤ
  proofB : MtAProof
  shareB : ℤ

/-- The draws of one range proof. -/
structure ProofRandomness (q n : ℤ) where
  alpha : Scalar q
  draws : RandomBigInts (n - 2)

/-- The draws of `executeMtARound1`. -/
structure Round1Randomness (q n : ℤ) where
  draws : RandomBigInts (n - 2)
  proof : ProofRandomness q n

/-- The draws of `executeMtARound2`. -/
structure Round2Randomness (q n : ℤ) where
  beta : Scalar q
  draws : RandomBigInts (n - 2)
  proof : ProofRandomness q n

section

variable (sha256 : Bytes → Digest) (q : ℤ)

def generateChallenge (publicKey : PaillierPublicKey) (ciphertext : ℤ) (extraData : JSString) : ℤ :=
  let input := textEncode (toString16 publicKey.n ++ js ":" ++ toString16 publicKey.g ++ js ":" ++
    toString16 ciphertext ++ js ":" ++ extraData)
  let hash := sha256 input
  let e : ℕ := hash.1.foldl (fun e b => e <<< 8 ||| b.toNat) 0
  (e : ℤ).tmod q

def generateMtARangeProof (paillierPublicKey : PaillierPublicKey) (secretShare : ℤ)
    (extraData : JSString) (random : ProofRandomness q paillierPublicKey.n) :
    Except JSError MtAProof := do
  let alpha := random.alpha.1
  let ciphertextAlpha ← encryptPaillier paillierPublicKey alpha random.draws
  let e := generateChallenge sha256 q paillierPublicKey ciphertextAlpha extraData
  let z := modN q (alpha + e * secretShare)
  return {
    commitment := js "0x" ++ toString16 ciphertextAlpha
    z := js "0x" ++ toString16 z
    w := js "0x" ++ bytesToHex (sha256 (textEncode (bigintString alpha))).1
    challenge := js "0x" ++ toString16 e
    isValid := true }

/-- Party A encrypts its scalar. -/
def executeMtARound1 (paillierPublicKey : PaillierPublicKey) (secretX : ℤ)
    (random : Round1Randomness q paillierPublicKey.n) : Except JSError MtARound1Output := do
  let ciphertext ← encryptPaillier paillierPublicKey secretX random.draws
  let proof ← generateMtARangeProof sha256 q paillierPublicKey secretX (js "round1") random.proof
  return ⟨ciphertext, proof⟩

/-- Party B multiplies by its scalar and subtracts `beta`. -/
def executeMtARound2 (paillierPublicKeyA : PaillierPublicKey) (ciphertextX secretY : ℤ)
    (random : Round2Randomness q paillierPublicKeyA.n) : Except JSError MtARound2Output := do
  let beta := random.beta.1
  let c_x_y ← modPow ciphertextX secretY paillierPublicKeyA.nSquared
  let negBeta ← bigintRem (paillierPublicKeyA.n - (← bigintRem beta paillierPublicKeyA.n))
    paillierPublicKeyA.n
  let c_neg_beta ← encryptPaillier paillierPublicKeyA negBeta random.draws
  let ciphertextK ← bigintRem (c_x_y * c_neg_beta) paillierPublicKeyA.nSquared
  let proofB ← generateMtARangeProof sha256 q paillierPublicKeyA secretY (js "round2") random.proof
  return ⟨ciphertextK, proofB, beta⟩

/-- Party A decrypts and reduces modulo the curve order. -/
def executeMtADecrypt (paillierPrivKeyA : PaillierPrivateKey)
    (paillierPubKeyA : PaillierPublicKey) (ciphertextK : ℤ) : Except JSError ℤ := do
  let decrypted ← decryptPaillier paillierPrivKeyA paillierPubKeyA ciphertextK
  return (decrypted.tmod q + q).tmod q

end

/-! ## One exchange -/

/-- Both encryptions of the round find a number coprime to `n`. -/
def Round1Randomness.Finds {q n' : ℤ} (random : Round1Randomness q n') (n : ℕ) : Prop :=
  BioFire.Finds n random.draws.draw ∧ BioFire.Finds n random.proof.draws.draw

/-- Both encryptions of the round find a number coprime to `n`. -/
def Round2Randomness.Finds {q n' : ℤ} (random : Round2Randomness q n') (n : ℕ) : Prop :=
  BioFire.Finds n random.draws.draw ∧ BioFire.Finds n random.proof.draws.draw

/-- The exchange ends, with shares `alpha` and `shareB` of the product. -/
def MtAShares (sha256 : Bytes → Digest) (q : ℤ) (keys : PaillierKeyPair) (x y : ℤ)
    (random₁ : Round1Randomness q keys.publicKey.n)
    (random₂ : Round2Randomness q keys.publicKey.n) : Prop :=
  ∃ round1 round2 alpha,
    executeMtARound1 sha256 q keys.publicKey x random₁ = .ok round1 ∧
    executeMtARound2 sha256 q keys.publicKey round1.ciphertext y random₂ = .ok round2 ∧
    executeMtADecrypt q keys.privateKey keys.publicKey round2.ciphertextK = .ok alpha ∧
    alpha + round2.shareB ≡ x * y [ZMOD q]

section

variable (sha256 : Bytes → Digest) {q : ℤ} {n : ℕ} {publicKey : PaillierPublicKey}

theorem generateMtARangeProof_ok (hn : 1 < n) (hkey : publicKey = ⟨n, n + 1, n * n⟩)
    (hqn : q ≤ n) (secretShare : ℤ) (extraData : JSString)
    (random : ProofRandomness q publicKey.n) (h : Finds n random.draws.draw) :
    ∃ proof, generateMtARangeProof sha256 q publicKey secretShare extraData random =
      .ok proof := by
  have halpha₀ := random.alpha.2.1
  have halpha := random.alpha.2.2
  obtain ⟨c, hc, -, -⟩ := encryptPaillier_ok (m := random.alpha.1.toNat) hn hkey (by omega) h
  rw [Int.toNat_of_nonneg (by omega)] at hc
  exact ⟨_, by simp only [generateMtARangeProof, hc, bind, Except.bind]; rfl⟩

theorem generateMtARangeProof_error (hkey : publicKey.n = n) (secretShare : ℤ)
    (extraData : JSString) (random : ProofRandomness q publicKey.n)
    (h : ¬ Finds n random.draws.draw) :
    ∃ e, generateMtARangeProof sha256 q publicKey secretShare extraData random = .error e := by
  obtain ⟨e, he⟩ := encryptPaillier_error random.alpha.1 hkey h
  exact ⟨e, by simp [generateMtARangeProof, he, bind, Except.bind]⟩

theorem executeMtARound1_ok (hn : 1 < n) (hkey : publicKey = ⟨n, n + 1, n * n⟩) (hqn : q ≤ n)
    {x : ℕ} (hx : x < n) (random : Round1Randomness q publicKey.n) (h : random.Finds n) :
    ∃ round1, executeMtARound1 sha256 q publicKey x random = .ok round1 ∧
      Encrypts n round1.ciphertext x := by
  obtain ⟨c, hc, -, hcx⟩ := encryptPaillier_ok hn hkey hx h.1
  obtain ⟨proof, hproof⟩ :=
    generateMtARangeProof_ok sha256 hn hkey hqn x (js "round1") random.proof h.2
  exact ⟨⟨c, proof⟩, by simp [executeMtARound1, hc, hproof, bind, Except.bind, pure, Except.pure],
    hcx⟩

theorem executeMtARound1_error (hkey : publicKey.n = n) (x : ℤ)
    (random : Round1Randomness q publicKey.n) (h : ¬ random.Finds n) :
    ∃ e, executeMtARound1 sha256 q publicKey x random = .error e := by
  by_cases hx : Finds n random.draws.draw
  · obtain ⟨e, he⟩ := generateMtARangeProof_error sha256 hkey x (js "round1") random.proof
      fun hproof => h ⟨hx, hproof⟩
    exact exists_error_bind fun _ _ => ⟨e, by rw [he]; rfl⟩
  · obtain ⟨e, he⟩ := encryptPaillier_error x hkey hx
    exact ⟨e, by rw [executeMtARound1, he]; rfl⟩

/-- The two reductions of the mask that party B encrypts. -/
theorem negBeta_ok {beta : ℤ} (hbeta₀ : 1 ≤ beta) (hbeta : beta < n) :
    bigintRem beta n = .ok beta ∧
      bigintRem ((n : ℤ) - beta) n = .ok ((n - beta.toNat : ℕ) : ℤ) := by
  rw [bigintRem_of_nonneg (by omega) (by omega), bigintRem_of_nonneg (by omega) (by omega),
    Int.emod_eq_of_lt (by omega) hbeta, Int.emod_eq_of_lt (by omega) (by omega)]
  exact ⟨rfl, congrArg Except.ok (by omega)⟩

theorem executeMtARound2_ok (hn : 1 < n) (hkey : publicKey = ⟨n, n + 1, n * n⟩) (hqn : q ≤ n)
    {c : ℤ} {x : ℕ} (y : ℕ) (hc : Encrypts n c x) (random : Round2Randomness q publicKey.n)
    (h : random.Finds n) :
    ∃ round2, executeMtARound2 sha256 q publicKey c y random = .ok round2 ∧
      Encrypts n round2.ciphertextK (x * y + (n - random.beta.1.toNat)) ∧
      0 < round2.ciphertextK ∧ round2.ciphertextK < n * n ∧ round2.shareB = random.beta.1 := by
  have hbeta₀ := random.beta.2.1
  have hbeta := random.beta.2.2
  have hsq : (1 : ℤ) < n * n := by exact_mod_cast Nat.one_lt_mul_iff.mpr (by omega)
  obtain ⟨proof, hproof⟩ :=
    generateMtARangeProof_ok sha256 hn hkey hqn y (js "round2") random.proof h.2
  obtain ⟨cNeg, hcNeg, hneg₀, hneg⟩ :=
    encryptPaillier_ok (m := n - random.beta.1.toNat) hn hkey (by omega) h.1
  subst hkey
  obtain ⟨hrem, hmask⟩ := negBeta_ok hbeta₀ (hbeta.trans_le hqn)
  have hK : Encrypts n (c ^ y % (n * n) * cNeg % (n * n))
      (x * y + (n - random.beta.1.toNat)) :=
    (((hc.pow y).congr (Int.mod_modEq _ _)).mul hneg).congr (Int.mod_modEq _ _)
  refine ⟨⟨c ^ y % (n * n) * cNeg % (n * n), proof, random.beta.1⟩, ?_, hK, ?_,
    Int.emod_lt_of_pos _ (by omega), rfl⟩
  · have hprod := bigintRem_of_nonneg (b := (n : ℤ) * n)
      (mul_nonneg (Int.emod_nonneg (c ^ y) (show (n : ℤ) * n ≠ 0 by omega)) hneg₀) (by omega)
    simp only [executeMtARound2, modPow_ok (Int.natCast_nonneg y) hsq, Int.toNat_natCast, bind,
      Except.bind, hrem, hmask, hcNeg, hprod, hproof, pure, Except.pure]
  · have hpos := hK.emod_pos hn
    rwa [Int.emod_emod] at hpos

theorem executeMtARound2_error (hkey : publicKey.n = n) (c y : ℤ)
    (random : Round2Randomness q publicKey.n) (h : ¬ random.Finds n) :
    ∃ e, executeMtARound2 sha256 q publicKey c y random = .error e := by
  refine exists_error_bind fun _ _ => exists_error_bind fun _ _ => exists_error_bind fun m _ => ?_
  by_cases hm : Finds n random.draws.draw
  · obtain ⟨e, he⟩ := generateMtARangeProof_error sha256 hkey y (js "round2") random.proof
      fun hproof => h ⟨hm, hproof⟩
    exact exists_error_bind fun _ _ => exists_error_bind fun _ _ => ⟨e, by rw [he]; rfl⟩
  · obtain ⟨e, he⟩ := encryptPaillier_error m hkey hm
    exact ⟨e, by rw [he]; rfl⟩

/-- The number that party A decrypts is off by `n` when `beta` exceeds the product. -/
theorem mtaPlaintext_emod {x y beta : ℕ} (hbeta₀ : 1 ≤ beta) (hbeta : beta ≤ n)
    (hxy : x * y < n) :
    ((x * y + (n - beta) : ℕ) : ℤ) % n =
      if beta ≤ x * y then (x * y : ℤ) - beta else n + x * y - beta := by
  have hcast : ((x * y + (n - beta) : ℕ) : ℤ) = (x * y : ℤ) + (n - beta) := by
    rw [Nat.cast_add, Nat.cast_sub hbeta, Nat.cast_mul]
  have hlt : (x * y : ℤ) < n := by exact_mod_cast hxy
  rw [hcast]
  split
  next hle =>
    have hle' : (beta : ℤ) ≤ x * y := by exact_mod_cast hle
    rw [show (x * y : ℤ) + (n - beta) = x * y - beta + n by ring, Int.add_emod_right,
      Int.emod_eq_of_lt (by omega) (by omega)]
  next hgt =>
    have hgt' : (x * y : ℤ) < beta := by exact_mod_cast not_le.mp hgt
    rw [show (x * y : ℤ) + (n - beta) = n + x * y - beta by ring,
      Int.emod_eq_of_lt (by nlinarith) (by omega)]

end

section

variable {sha256 : Bytes → Digest} {q : ℤ} {keys : GeneratedKeys}
  {random₁ : Round1Randomness q keys.keyPair.publicKey.n}
  {random₂ : Round2Randomness q keys.keyPair.publicKey.n}

/-- The exchange is over when an encryption finds no random number, and has the
shares of the decrypted number and `beta` otherwise. -/
theorem mtaShares_iff {x y : ℕ} (hqn : q ≤ keys.n) (hq : 0 < q) (hx : x < keys.n) :
    MtAShares sha256 q keys.keyPair x y random₁ random₂ ↔
      (random₁.Finds keys.n ∧ random₂.Finds keys.n) ∧
        ((x * y + (keys.n - random₂.beta.1.toNat) : ℕ) : ℤ) % keys.n + random₂.beta.1 ≡
          x * y [ZMOD q] := by
  have hkey := keys.publicKey_eq
  have hkeyn : keys.keyPair.publicKey.n = keys.n := by rw [hkey]
  by_cases h₁ : random₁.Finds keys.n
  · obtain ⟨round1, hround1, hcx⟩ :=
      executeMtARound1_ok sha256 keys.one_lt_n hkey hqn hx random₁ h₁
    by_cases h₂ : random₂.Finds keys.n
    · obtain ⟨round2, hround2, hcK, hcK₀, hcKn, hshare⟩ :=
        executeMtARound2_ok sha256 keys.one_lt_n hkey hqn y hcx random₂ h₂
      have halpha : executeMtADecrypt q keys.keyPair.privateKey keys.keyPair.publicKey
          round2.ciphertextK =
            .ok (((x * y + (keys.n - random₂.beta.1.toNat) : ℕ) : ℤ) % keys.n % q) := by
        simp only [executeMtADecrypt, keys.decryptPaillier_encrypts hcK hcK₀ hcKn, bind,
          Except.bind, pure, Except.pure, tmod_add_tmod hq]
      constructor
      · rintro ⟨round1', round2', alpha, hr1, hr2, hdec, hsum⟩
        cases hround1.symm.trans hr1
        cases hround2.symm.trans hr2
        cases halpha.symm.trans hdec
        rw [hshare] at hsum
        exact ⟨⟨h₁, h₂⟩, ((Int.mod_modEq _ q).add_right _).symm.trans hsum⟩
      · rintro ⟨-, hsum⟩
        refine ⟨round1, round2, _, hround1, hround2, halpha, ?_⟩
        rw [hshare]
        exact ((Int.mod_modEq _ q).add_right _).trans hsum
    · refine iff_of_false ?_ fun h => h₂ h.1.2
      rintro ⟨round1', round2', alpha, hr1, hr2, hdec, hsum⟩
      obtain ⟨e, he⟩ :=
        executeMtARound2_error sha256 hkeyn round1'.ciphertext y random₂ h₂
      cases he.symm.trans hr2
  · refine iff_of_false ?_ fun h => h₁ h.1.1
    rintro ⟨round1', round2', alpha, hr1, hr2, hdec, hsum⟩
    obtain ⟨e, he⟩ := executeMtARound1_error sha256 hkeyn x random₁ h₁
    cases he.symm.trans hr1

theorem mtaSum_modEq_iff {n x y : ℕ} (beta : ℤ) (hbeta₀ : 1 ≤ beta) (hbeta : beta ≤ n)
    (hxy : x * y < n) :
    ((x * y + (n - beta.toNat) : ℕ) : ℤ) % n + beta ≡ x * y [ZMOD q] ↔
      beta ≤ x * y ∨ q ∣ n := by
  lift beta to ℕ using by omega
  rw [Int.toNat_natCast, mtaPlaintext_emod (by omega) (by omega) hxy]
  split
  next hle =>
    have hle' : (beta : ℤ) ≤ x * y := by exact_mod_cast hle
    simp [hle']
  next hgt =>
    have hgt' : ¬ (beta : ℤ) ≤ x * y := by exact_mod_cast hgt
    rw [sub_add_cancel, or_iff_right hgt', Int.modEq_comm, Int.modEq_iff_dvd, add_sub_cancel_right]

/-- **Multiplication to addition.** The exchange ends with shares of `x * y`
exactly when every encryption finds a random number and `beta ≤ x * y` or `q`
divides the Paillier modulus. -/
theorem mta_correct_iff {x y : ℤ} (hq : q * q < keys.n) (hx₀ : 0 ≤ x) (hx : x < q)
    (hy₀ : 0 ≤ y) (hy : y < q) :
    MtAShares sha256 q keys.keyPair x y random₁ random₂ ↔
      (random₁.Finds keys.n ∧ random₂.Finds keys.n) ∧
        (random₂.beta.1 ≤ x * y ∨ q ∣ keys.n) := by
  lift x to ℕ using hx₀
  lift y to ℕ using hy₀
  have hbeta₀ := random₂.beta.2.1
  have hbeta := random₂.beta.2.2
  have hqn : q < keys.n := by nlinarith
  have hxy : x * y < keys.n := by
    have hle : (x * y : ℤ) ≤ q * q := mul_le_mul hx.le hy.le (by omega) (by omega)
    exact_mod_cast hle.trans_lt hq
  rw [mtaShares_iff hqn.le (by omega) (by omega), mtaSum_modEq_iff _ hbeta₀ (by omega) hxy]

end

/-! ## Two exchanges -/

/-- Draws that are all zero: encryption tries `r = 2`. -/
def zeroDraws {max : ℤ} (h : 0 < max) : RandomBigInts max :=
  ⟨fun _ => 0, fun _ => le_rfl, fun _ => h⟩

theorem finds_zeroDraws {n : ℕ} {max : ℤ} (h : 0 < max) (hn : Odd n) :
    Finds n (zeroDraws h).draw := by
  refine ⟨0, by decide, ?_⟩
  change Int.gcd (2 : ℕ) n = 1
  rw [Int.gcd_natCast_natCast]
  exact (Nat.coprime_two_left).mpr hn

section

variable {q n : ℤ} (hn : 0 < n - 2)

/-- Randomness with the given scalars and zero draws. -/
def zeroRandom₁ (alpha : Scalar q) : Round1Randomness q n :=
  ⟨zeroDraws hn, alpha, zeroDraws hn⟩

def zeroRandom₂ (beta alpha : Scalar q) : Round2Randomness q n :=
  ⟨beta, zeroDraws hn, alpha, zeroDraws hn⟩

end

/-- Over the order 5, with the keys of 7 and 11: the product `2 * 3` with `beta = 1`. -/
theorem mta_correct_iff_small : ∃ keys : GeneratedKeys, keys.p = 7 ∧ keys.q = 11 ∧
    ∃ random₁ random₂, random₂.beta.1 = 1 ∧
      (MtAShares (fun _ => zeroDigest) 5 keys.keyPair 2 3 random₁ random₂ ↔
        (random₁.Finds keys.n ∧ random₂.Finds keys.n) ∧
          (random₂.beta.1 ≤ 2 * 3 ∨ (5 : ℤ) ∣ keys.n)) := by
  obtain ⟨keys, hp, hq⟩ := GeneratedKeys.exists_of_coprime (p := 7) (q := 11) (by norm_num)
    (by norm_num) (by norm_num) (by decide)
  have hn : keys.n = 77 := by rw [GeneratedKeys.n, hp, hq]
  have hpos : 0 < keys.keyPair.publicKey.n - 2 := by rw [keys.publicKey_eq, hn]; norm_num
  exact ⟨keys, hp, hq, zeroRandom₁ hpos ⟨1, by norm_num⟩,
    zeroRandom₂ hpos ⟨1, by norm_num⟩ ⟨1, by norm_num⟩, rfl,
    mta_correct_iff (by rw [hn]; norm_num) (by norm_num) (by norm_num) (by norm_num) (by norm_num)⟩

/-- The order of secp256k1. -/
def secp256k1Order : ℤ := 0xFFFFFFFFFFFFFFFFFFFFFFFFFFFFFFFEBAAEDCE6AF48A03BBFD25E8CD0364141

/-- Two primes of 512 bits, with `gcd(p - 1, q - 1) = 2` as key generation asks. -/
def smoothPrime : ℕ := 2 * 3 ^ 191 * 7 ^ 74 + 1

def prothPrime : ℕ := 2713 * 2 ^ 500 + 1

/-- `3 ^ (c * b₁ ^ i * b₂ ^ j)` modulo `m`, by repeated powers. -/
def repeatedPow (m c b₁ i b₂ j : ℕ) : ℕ :=
  (fun x => x ^ b₂ % m)^[j] ((fun x => x ^ b₁ % m)^[i] (3 ^ c))

theorem iterate_pow_modEq (m b a k : ℕ) : (fun x => x ^ b % m)^[k] a ≡ a ^ b ^ k [MOD m] := by
  induction k with
  | zero => rw [pow_zero, pow_one]; rfl
  | succ k ih =>
    rw [Function.iterate_succ_apply', pow_succ, pow_mul]
    exact (Nat.mod_modEq _ m).trans (ih.pow b)

theorem pow_modEq_one_iff {m e : ℕ} (c b₁ i b₂ j : ℕ) (he : e = c * b₁ ^ i * b₂ ^ j) :
    3 ^ e ≡ 1 [MOD m] ↔ repeatedPow m c b₁ i b₂ j % m = 1 % m := by
  have hpow : repeatedPow m c b₁ i b₂ j ≡ 3 ^ e [MOD m] := by
    refine (iterate_pow_modEq m b₂ _ j).trans ?_
    rw [he, pow_mul, pow_mul]
    exact (iterate_pow_modEq m b₁ _ i).pow _
  exact ⟨hpow.trans, hpow.symm.trans⟩

/-- Lucas's criterion with the base 3. -/
theorem prime_of_pow_modEq {d : ℕ} (hone : 3 ^ d ≡ 1 [MOD d + 1])
    (hne : ∀ f : ℕ, f.Prime → f ∣ d → ¬ 3 ^ (d / f) ≡ 1 [MOD d + 1]) : (d + 1).Prime := by
  refine lucas_primality (d + 1) 3 ?_ fun f hf hdvd h => hne f hf hdvd ?_
  · exact_mod_cast (ZMod.natCast_eq_natCast_iff _ _ (d + 1)).mpr hone
  · exact (ZMod.natCast_eq_natCast_iff _ _ (d + 1)).mp (by exact_mod_cast h)

theorem smoothPrime_prime : smoothPrime.Prime := by
  refine prime_of_pow_modEq
    ((pow_modEq_one_iff 2 3 191 7 74 rfl).mpr (by decide +kernel)) fun f hf hdvd => ?_
  rcases hf.dvd_mul.mp hdvd with h | h
  · rcases hf.dvd_mul.mp h with h | h
    · obtain rfl := (Nat.prime_dvd_prime_iff_eq hf Nat.prime_two).mp h
      exact (pow_modEq_one_iff 1 3 191 7 74 (by decide)).not.mpr (by decide +kernel)
    · obtain rfl := (Nat.prime_dvd_prime_iff_eq hf Nat.prime_three).mp (hf.dvd_of_dvd_pow h)
      exact (pow_modEq_one_iff 2 3 190 7 74 (by decide)).not.mpr (by decide +kernel)
  · obtain rfl := (Nat.prime_dvd_prime_iff_eq hf (by norm_num)).mp (hf.dvd_of_dvd_pow h)
    exact (pow_modEq_one_iff 2 3 191 7 73 (by decide)).not.mpr (by decide +kernel)

theorem prothPrime_prime : prothPrime.Prime := by
  refine prime_of_pow_modEq
    ((pow_modEq_one_iff 1 2713 1 2 500 (by rw [one_mul, pow_one])).mpr (by decide +kernel))
    fun f hf hdvd => ?_
  rcases hf.dvd_mul.mp hdvd with h | h
  · obtain rfl := (Nat.prime_dvd_prime_iff_eq hf (by norm_num)).mp h
    exact (pow_modEq_one_iff 1 2713 0 2 500 (by decide +kernel)).not.mpr (by decide +kernel)
  · obtain rfl := (Nat.prime_dvd_prime_iff_eq hf Nat.prime_two).mp (hf.dvd_of_dvd_pow h)
    exact (pow_modEq_one_iff 1 2713 1 2 499 (by decide +kernel)).not.mpr (by decide +kernel)

/-- Keys of 1023 bits. -/
theorem exists_largeKeys : ∃ keys : GeneratedKeys, keys.p = smoothPrime ∧ keys.q = prothPrime ∧
    0 < keys.keyPair.publicKey.n - 2 ∧ Odd keys.n ∧ secp256k1Order ≤ keys.n := by
  obtain ⟨keys, hp, hq⟩ := GeneratedKeys.exists_of_coprime smoothPrime_prime prothPrime_prime
    (by decide +kernel) (by decide +kernel)
  have hn : keys.n = smoothPrime * prothPrime := by rw [GeneratedKeys.n, hp, hq]
  refine ⟨keys, hp, hq, ?_⟩
  rw [keys.publicKey_eq, hn]
  exact ⟨by decide +kernel, by decide +kernel, by decide +kernel⟩

/-- With the order of secp256k1 and these keys of 1023 bits, the product `1 * 1`
and `beta = 2`: every encryption finds its random number, and the shares add up
to something else. -/
theorem mta_shares_fail : ∃ keys : GeneratedKeys, keys.p = smoothPrime ∧ keys.q = prothPrime ∧
    secp256k1Order * secp256k1Order < keys.n ∧
    ∃ random₁ random₂, random₂.beta.1 = 2 ∧ random₁.Finds keys.n ∧ random₂.Finds keys.n ∧
      ¬ MtAShares (fun _ => zeroDigest) secp256k1Order keys.keyPair 1 1 random₁ random₂ := by
  obtain ⟨keys, hp, hq, hpos, hodd, hqn⟩ := exists_largeKeys
  have hn : keys.n = smoothPrime * prothPrime := by rw [GeneratedKeys.n, hp, hq]
  have hfinds := finds_zeroDraws hpos hodd
  refine ⟨keys, hp, hq, by rw [hn]; decide +kernel, zeroRandom₁ hpos ⟨1, by decide⟩,
    zeroRandom₂ hpos ⟨2, by decide⟩ ⟨1, by decide⟩, rfl, ⟨hfinds, hfinds⟩, ⟨hfinds, hfinds⟩, ?_⟩
  intro h
  obtain ⟨-, hsum⟩ := (mtaShares_iff (x := 1) (y := 1) hqn (by decide) keys.one_lt_n).mp h
  rcases (mtaSum_modEq_iff (n := keys.n) (x := 1) (y := 1) 2 (by decide)
    (by rw [hn]; decide +kernel) (by rw [hn]; decide +kernel)).mp hsum with hle | hdvd
  · exact absurd hle (by decide)
  · rw [hn] at hdvd
    revert hdvd
    decide +kernel

end BioFire
