import BioFire.ModularArithmetic
import BioFire.SecureRandom
import Mathlib.FieldTheory.Finite.Basic

/-!
# Paillier encryption

The model of `paillier.ts`, with the prime search of `generatePaillierKeys`
replaced by its result. Over it, `Encrypts n c m` says that the number `c` is a
ciphertext of `m` for some randomness:

* `Encrypts.mul`, `Encrypts.pow`: the homomorphic operations;
* `encryptPaillier_ok`, `encryptPaillier_error`: encryption returns a ciphertext of
  its plaintext, as soon as one of its draws is coprime to `n`, and throws otherwise;
* `decryptPaillier_encrypts`: decryption of any ciphertext of `m` gives `m`
  modulo `n`.
-/

namespace BioFire

structure PaillierPublicKey where
  n : ℤ
  g : ℤ
  nSquared : ℤ

structure PaillierPrivateKey where
  lambda : ℤ
  mu : ℤ
  p : ℤ
  q : ℤ

structure PaillierKeyPair where
  publicKey : PaillierPublicKey
  privateKey : PaillierPrivateKey

/-- `generatePaillierKeys` from the point where both primes are found. -/
def paillierKeysOfPrimes (p q : ℤ) : Except JSError PaillierKeyPair := do
  let n := p * q
  let nSquared := n * n
  let g := n + 1
  let lambda ← lcm (p - 1) (q - 1)
  let gLambda ← modPow g lambda nSquared
  let l ← bigintDiv (gLambda - 1) n
  let mu ← modInverse l n
  return ⟨⟨n, g, nSquared⟩, ⟨lambda, mu, p, q⟩⟩

/-- The loop that looks for a random `r` coprime to `n`, with the attempts left. -/
def encryptionRandom (n : ℤ) (draw : ℕ → ℤ) : ℕ → ℕ → Except JSError ℤ
  | 0, _ => .error (plainError (js "Failed to find valid random r for Paillier encryption"))
  | attempts + 1, i =>
    let r := draw i + 2
    if gcd r n ≠ 1 then encryptionRandom n draw attempts (i + 1) else .ok r

def maxAttempts : ℕ := 1000

def encryptPaillier (publicKey : PaillierPublicKey) (plaintext : ℤ)
    (draws : RandomBigInts (publicKey.n - 2)) : Except JSError ℤ :=
  if plaintext < 0 ∨ plaintext ≥ publicKey.n then
    .error (plainError (js "Plaintext must be in [0, n-1]. Got: " ++ bigintString plaintext))
  else do
    let r ← encryptionRandom publicKey.n draws.draw maxAttempts 0
    let gm ← modPow publicKey.g plaintext publicKey.nSquared
    let rn ← modPow r publicKey.n publicKey.nSquared
    bigintRem (gm * rn) publicKey.nSquared

def decryptPaillier (privateKey : PaillierPrivateKey) (publicKey : PaillierPublicKey)
    (ciphertext : ℤ) : Except JSError ℤ :=
  if ciphertext ≤ 0 ∨ ciphertext ≥ publicKey.nSquared then
    .error (plainError (js "Ciphertext must be in (0, n²). Got: " ++ bigintString ciphertext))
  else do
    let cLambda ← modPow ciphertext privateKey.lambda publicKey.nSquared
    let l ← bigintDiv (cLambda - 1) publicKey.n
    bigintRem (l * privateKey.mu) publicKey.n

def addEncrypted (publicKey : PaillierPublicKey) (c1 c2 : ℤ) : Except JSError ℤ :=
  bigintRem (c1 * c2) publicKey.nSquared

def multiplyEncryptedByScalar (publicKey : PaillierPublicKey) (ciphertext scalar : ℤ) :
    Except JSError ℤ :=
  modPow ciphertext scalar publicKey.nSquared

/-! ## The group modulo `n²` -/

theorem one_add_pow_modEq (n : ℤ) (m : ℕ) : (n + 1) ^ m ≡ 1 + m * n [ZMOD n * n] := by
  induction m with
  | zero => simp
  | succ m ih =>
    rw [pow_succ]
    refine (ih.mul_right (n + 1)).trans (Int.modEq_iff_dvd.mpr ⟨-m, ?_⟩)
    push_cast
    ring

theorem pow_modEq_one_of_prime {p r e : ℕ} (hp : p.Prime) (hr : r.Coprime p)
    (he : p * (p - 1) ∣ e) : r ^ e ≡ 1 [MOD p * p] := by
  have hφ : Nat.totient (p * p) = p * (p - 1) := by
    rw [← sq, Nat.totient_prime_pow hp (by omega), pow_one]
  obtain ⟨k, rfl⟩ := he
  have htotient := (Nat.ModEq.pow_totient (hr.mul_right hr)).pow k
  rwa [hφ, one_pow, ← pow_mul] at htotient

/-- Every unit to the power `n * lcm(p - 1, q - 1)` is one modulo `n²`. -/
theorem pow_lambda_modEq_one {p q r : ℕ} (hp : p.Prime) (hq : q.Prime) (hne : p ≠ q)
    (hr : r.Coprime (p * q)) :
    (r : ℤ) ^ (p * q * Nat.lcm (p - 1) (q - 1)) ≡ 1 [ZMOD (p * q : ℕ) * (p * q : ℕ)] := by
  have hcop : (p * p).Coprime (q * q) :=
    Nat.Coprime.mul_left (((Nat.coprime_primes hp hq).mpr hne).mul_right
      ((Nat.coprime_primes hp hq).mpr hne)) (((Nat.coprime_primes hp hq).mpr hne).mul_right
      ((Nat.coprime_primes hp hq).mpr hne))
  have hmodp : r ^ (p * q * Nat.lcm (p - 1) (q - 1)) ≡ 1 [MOD p * p] := by
    refine pow_modEq_one_of_prime hp (hr.coprime_dvd_right (dvd_mul_right p q)) ?_
    rw [mul_assoc]
    exact mul_dvd_mul_left p ((Nat.dvd_lcm_left _ _).trans (dvd_mul_left _ _))
  have hmodq : r ^ (p * q * Nat.lcm (p - 1) (q - 1)) ≡ 1 [MOD q * q] := by
    refine pow_modEq_one_of_prime hq (hr.coprime_dvd_right (dvd_mul_left q p)) ?_
    rw [mul_comm p q, mul_assoc]
    exact mul_dvd_mul_left q ((Nat.dvd_lcm_right _ _).trans (dvd_mul_left _ _))
  have hmod := (Nat.modEq_and_modEq_iff_modEq_mul hcop).mp ⟨hmodp, hmodq⟩
  rw [show p * p * (q * q) = p * q * (p * q) by ring] at hmod
  exact_mod_cast hmod

/-- `L(u) = (u - 1) / n` of a number that is `1 + k * n` modulo `n²`. -/
theorem L_of_modEq {n : ℤ} (hn : 1 < n) {c k : ℤ} (hc : c ≡ 1 + k * n [ZMOD n * n]) :
    1 ≤ c % (n * n) ∧ (c % (n * n) - 1) / n = k % n := by
  have hk₀ := Int.emod_nonneg k (show n ≠ 0 by omega)
  have hk := Int.emod_lt_of_pos k (show 0 < n by omega)
  have hmod : c % (n * n) = 1 + k % n * n := by
    have hdvd : 1 + k * n ≡ 1 + k % n * n [ZMOD n * n] := by
      refine Int.ModEq.add_left 1 (Int.modEq_iff_dvd.mpr ⟨-(k / n), ?_⟩)
      have hdiv := Int.emod_add_mul_ediv k n
      linear_combination n * hdiv
    rw [hc.trans hdvd]
    have hle : k % n * n ≤ (n - 1) * n := mul_le_mul_of_nonneg_right (by omega) (by omega)
    have hpos := mul_nonneg hk₀ (show 0 ≤ n by omega)
    exact Int.emod_eq_of_lt (by omega) (by linarith)
  rw [hmod]
  refine ⟨by linarith [mul_nonneg hk₀ (show 0 ≤ n by omega)], ?_⟩
  rw [show 1 + k % n * n - 1 = k % n * n by ring]
  exact Int.mul_ediv_cancel _ (by omega)

/-! ## Ciphertexts -/

/-- `c` is a ciphertext of `m` modulo `n²`. -/
def Encrypts (n : ℕ) (c : ℤ) (m : ℕ) : Prop :=
  ∃ r : ℕ, r.Coprime n ∧ c ≡ ((n : ℤ) + 1) ^ m * r ^ n [ZMOD n * n]

theorem Encrypts.mul {n m₁ m₂ : ℕ} {c₁ c₂ : ℤ} (h₁ : Encrypts n c₁ m₁) (h₂ : Encrypts n c₂ m₂) :
    Encrypts n (c₁ * c₂) (m₁ + m₂) := by
  obtain ⟨r₁, hr₁, hc₁⟩ := h₁
  obtain ⟨r₂, hr₂, hc₂⟩ := h₂
  refine ⟨r₁ * r₂, Nat.Coprime.mul_left hr₁ hr₂, (hc₁.mul hc₂).trans ?_⟩
  rw [Nat.cast_mul, mul_pow, pow_add, mul_mul_mul_comm]

theorem Encrypts.pow {n m : ℕ} {c : ℤ} (h : Encrypts n c m) (k : ℕ) :
    Encrypts n (c ^ k) (m * k) := by
  obtain ⟨r, hr, hc⟩ := h
  refine ⟨r ^ k, Nat.Coprime.pow_left k hr, (hc.pow k).trans ?_⟩
  rw [mul_pow, ← pow_mul, Nat.cast_pow, ← pow_mul, ← pow_mul, mul_comm n k]

theorem Encrypts.congr {n m : ℕ} {c c' : ℤ} (h : Encrypts n c m) (hc : c' ≡ c [ZMOD n * n]) :
    Encrypts n c' m := by
  obtain ⟨r, hr, hm⟩ := h
  exact ⟨r, hr, hc.trans hm⟩

theorem Encrypts.pow_lambda {p q m : ℕ} {c : ℤ} (hp : p.Prime) (hq : q.Prime) (hne : p ≠ q)
    (h : Encrypts (p * q) c m) :
    c ^ Nat.lcm (p - 1) (q - 1) ≡
      1 + (m * Nat.lcm (p - 1) (q - 1) : ℕ) * (p * q : ℕ) [ZMOD (p * q : ℕ) * (p * q : ℕ)] := by
  obtain ⟨r, hr, hc⟩ := h
  refine (hc.pow _).trans ?_
  rw [mul_pow, ← pow_mul, ← pow_mul]
  simpa using (one_add_pow_modEq (p * q : ℕ) (m * Nat.lcm (p - 1) (q - 1))).mul
    (pow_lambda_modEq_one hp hq hne hr)

theorem Encrypts.emod_pos {n m : ℕ} {c : ℤ} (hn : 1 < n) (h : Encrypts n c m) :
    0 < c % (n * n) := by
  obtain ⟨r, hr, hc⟩ := h
  have hsq : (n : ℤ) * n ≠ 0 := by positivity
  refine lt_of_le_of_ne (Int.emod_nonneg c hsq) fun hzero => ?_
  have hdvd : (n : ℤ) ∣ ((n : ℤ) + 1) ^ m * r ^ n :=
    (dvd_mul_right (n : ℤ) n).trans (hc.dvd_iff.mp
      (Int.dvd_of_emod_eq_zero hzero.symm))
  have hcop : IsCoprime (n : ℤ) (((n : ℤ) + 1) ^ m * r ^ n) := by
    refine IsCoprime.mul_right (IsCoprime.pow_right ?_) (IsCoprime.pow_right ?_)
    · exact ⟨-1, 1, by ring⟩
    · exact Nat.isCoprime_iff_coprime.mpr hr.symm
  have hunit := hcop.isUnit_of_dvd' dvd_rfl hdvd
  rw [Int.ofNat_isUnit, Nat.isUnit_iff] at hunit
  omega

/-! ## Keys, encryption, decryption -/

section

variable {p q : ℕ}

theorem one_lt_mul_primes (hp : p.Prime) (hq : q.Prime) : 1 < p * q := by
  have hle := Nat.mul_le_mul hp.two_le hq.two_le
  omega

/-- The key pair of two primes, given the inverse `mu`. -/
def keyPairOf (p q : ℕ) (mu : ℤ) : PaillierKeyPair :=
  ⟨⟨(p * q : ℕ), (p * q : ℕ) + 1, (p * q : ℕ) * (p * q : ℕ)⟩,
    ⟨(Nat.lcm (p - 1) (q - 1) : ℕ), mu, p, q⟩⟩

theorem paillierKeysOfPrimes_eq (hp : p.Prime) (hq : q.Prime) (hne : p ≠ q) :
    paillierKeysOfPrimes p q =
      (modInverse ((Nat.lcm (p - 1) (q - 1) : ℕ) % (p * q : ℕ)) (p * q : ℕ)).map
        (keyPairOf p q) := by
  have hn : (1 : ℤ) < (p * q : ℕ) := by exact_mod_cast one_lt_mul_primes hp hq
  have hp₂ := hp.two_le
  have hq₂ := hq.two_le
  have hlcm : lcm ((p : ℤ) - 1) ((q : ℤ) - 1) = .ok (Nat.lcm (p - 1) (q - 1) : ℕ) := by
    rw [show (p : ℤ) - 1 = (p - 1 : ℕ) by omega, show (q : ℤ) - 1 = (q - 1 : ℕ) by omega]
    exact lcm_ok (by omega)
  have hg : Encrypts (p * q) ((p * q : ℕ) + 1) 1 := ⟨1, Nat.coprime_one_left _, by simp⟩
  obtain ⟨hge, hL⟩ := L_of_modEq hn (hg.pow_lambda hp hq hne)
  rw [paillierKeysOfPrimes, show (p : ℤ) * q = (p * q : ℕ) by push_cast; rfl]
  simp only [hlcm, bind, Except.bind, Int.toNat_natCast, pure, Except.pure,
    modPow_ok (Int.natCast_nonneg _) (show 1 < ((p * q : ℕ) : ℤ) * (p * q : ℕ) by nlinarith),
    bigintDiv_of_nonneg (sub_nonneg.mpr hge) (show ((p * q : ℕ) : ℤ) ≠ 0 by omega), hL, one_mul]
  cases modInverse ((Nat.lcm (p - 1) (q - 1) : ℕ) % ((p * q : ℕ) : ℤ)) (p * q : ℕ) <;> rfl

end

/-- A key pair that `generatePaillierKeys` returns, with its primes. -/
structure GeneratedKeys where
  p : ℕ
  q : ℕ
  prime_p : p.Prime
  prime_q : q.Prime
  distinct : p ≠ q
  keyPair : PaillierKeyPair
  generated : paillierKeysOfPrimes p q = .ok keyPair

namespace GeneratedKeys

variable (keys : GeneratedKeys)

/-- The modulus. -/
def n : ℕ := keys.p * keys.q

def lambda : ℕ := Nat.lcm (keys.p - 1) (keys.q - 1)

theorem one_lt_n : 1 < keys.n := one_lt_mul_primes keys.prime_p keys.prime_q

theorem keyPair_eq : ∃ mu : ℤ,
    keys.keyPair = keyPairOf keys.p keys.q mu ∧ 0 ≤ mu ∧
      keys.lambda * mu ≡ 1 [ZMOD keys.n] := by
  have hgen := keys.generated
  rw [paillierKeysOfPrimes_eq keys.prime_p keys.prime_q keys.distinct] at hgen
  cases hinv : modInverse ((keys.lambda : ℤ) % keys.n) keys.n with
  | error e =>
    rw [lambda, n] at hinv
    rw [hinv] at hgen
    cases hgen
  | ok mu =>
    obtain ⟨-, hmu₀, -, hmu⟩ := (modInverse_ok (by exact_mod_cast keys.one_lt_n.le)).mp hinv
    rw [lambda, n] at hinv
    rw [hinv, Except.map, Except.ok.injEq] at hgen
    exact ⟨mu, hgen.symm, hmu₀, ((Int.mod_modEq (keys.lambda : ℤ) keys.n).symm.mul_right mu).trans hmu⟩

theorem exists_of_coprime {p q : ℕ} (hp : p.Prime) (hq : q.Prime) (hne : p ≠ q)
    (hcop : Nat.Coprime (Nat.lcm (p - 1) (q - 1)) (p * q)) :
    ∃ keys : GeneratedKeys, keys.p = p ∧ keys.q = q := by
  have hn : (1 : ℤ) < (p * q : ℕ) := by exact_mod_cast one_lt_mul_primes hp hq
  obtain ⟨u, v, huv⟩ := Nat.isCoprime_iff_coprime.mpr hcop
  have hinv := (modInverse_ok (a := (Nat.lcm (p - 1) (q - 1) : ℕ) % (p * q : ℕ))
    (x := u % (p * q : ℕ)) (by omega)).mpr ⟨by rw [Int.gcd_emod]; exact_mod_cast hcop,
      Int.emod_nonneg u (by omega), Int.emod_lt_of_pos u (by omega), by
        refine ((Int.mod_modEq _ _).mul (Int.mod_modEq _ _)).trans
          (Int.modEq_iff_dvd.mpr ⟨v, ?_⟩)
        linear_combination -huv⟩
  exact ⟨⟨p, q, hp, hq, hne, keyPairOf p q (u % (p * q : ℕ)), by
    rw [paillierKeysOfPrimes_eq hp hq hne, hinv]
    rfl⟩, rfl, rfl⟩

theorem publicKey_eq :
    keys.keyPair.publicKey = ⟨keys.n, keys.n + 1, keys.n * keys.n⟩ := by
  obtain ⟨mu, h, -⟩ := keys.keyPair_eq
  rw [h]
  rfl

/-- **Decryption** of any ciphertext of `m` gives `m` modulo `n`. -/
theorem decryptPaillier_encrypts {m : ℕ} {c : ℤ} (h : Encrypts keys.n c m) (hc₀ : 0 < c)
    (hc : c < keys.n * keys.n) :
    decryptPaillier keys.keyPair.privateKey keys.keyPair.publicKey c = .ok (m % (keys.n : ℤ)) := by
  have hn : (1 : ℤ) < keys.n := by exact_mod_cast keys.one_lt_n
  obtain ⟨mu, hkeys, hmu₀, hmu⟩ := keys.keyPair_eq
  rw [show keyPairOf keys.p keys.q mu =
    ⟨⟨keys.n, keys.n + 1, keys.n * keys.n⟩, ⟨keys.lambda, mu, keys.p, keys.q⟩⟩ from rfl] at hkeys
  obtain ⟨hge, hL⟩ : 1 ≤ c ^ keys.lambda % ((keys.n : ℤ) * keys.n) ∧
      (c ^ keys.lambda % ((keys.n : ℤ) * keys.n) - 1) / keys.n =
        (m * keys.lambda : ℕ) % (keys.n : ℤ) :=
    L_of_modEq hn (Encrypts.pow_lambda keys.prime_p keys.prime_q keys.distinct h)
  rw [hkeys, decryptPaillier, if_neg (not_or.mpr ⟨not_le.mpr hc₀, not_le.mpr hc⟩)]
  simp only [bind, Except.bind, modPow_ok (Int.natCast_nonneg keys.lambda)
    (show 1 < (keys.n : ℤ) * keys.n by nlinarith), Int.toNat_natCast,
    bigintDiv_of_nonneg (sub_nonneg.mpr hge) (show (keys.n : ℤ) ≠ 0 by omega), hL]
  rw [bigintRem_of_nonneg (mul_nonneg (Int.emod_nonneg _ (by omega)) hmu₀) (by omega)]
  refine congrArg Except.ok (((Int.mod_modEq _ _).mul_right mu).trans ?_)
  rw [Nat.cast_mul, mul_assoc]
  simpa using hmu.mul_left (m : ℤ)

end GeneratedKeys

/-- One of the draws that encryption makes gives a number coprime to `n`. -/
def Finds (n : ℕ) (draw : ℕ → ℤ) : Prop := ∃ i < maxAttempts, Int.gcd (draw i + 2) n = 1

theorem encryptionRandom_ok {n : ℤ} (draw : ℕ → ℤ) (attempts i : ℕ)
    (h : ∃ j < attempts, Int.gcd (draw (i + j) + 2) n = 1) :
    ∃ j, encryptionRandom n draw attempts i = .ok (draw j + 2) ∧ Int.gcd (draw j + 2) n = 1 := by
  induction attempts generalizing i with
  | zero => simp at h
  | succ attempts ih =>
    obtain ⟨j, hj, hgcd⟩ := h
    by_cases hi : Int.gcd (draw i + 2) n = 1
    · exact ⟨i, by simp [encryptionRandom, gcd_eq, hi], hi⟩
    · cases j with
      | zero => exact absurd hgcd hi
      | succ j =>
        obtain ⟨k, hk, hcop⟩ := ih (i + 1) ⟨j, by omega, by
          rw [show i + 1 + j = i + (j + 1) by omega]
          exact hgcd⟩
        refine ⟨k, ?_, hcop⟩
        rw [encryptionRandom, if_pos (by rw [gcd_eq]; exact_mod_cast hi), hk]

theorem encryptionRandom_error {n : ℤ} (draw : ℕ → ℤ) (attempts i : ℕ)
    (h : ∀ j < attempts, Int.gcd (draw (i + j) + 2) n ≠ 1) :
    ∃ e, encryptionRandom n draw attempts i = .error e := by
  induction attempts generalizing i with
  | zero => exact ⟨_, rfl⟩
  | succ attempts ih =>
    have hi := h 0 (by omega)
    rw [encryptionRandom, if_pos (by rw [gcd_eq]; exact_mod_cast hi)]
    refine ih (i + 1) fun j hj => ?_
    rw [show i + 1 + j = i + (j + 1) by omega]
    exact h (j + 1) (by omega)

section

variable {n : ℕ} {publicKey : PaillierPublicKey} {m : ℕ}

/-- **Encryption** returns a ciphertext of its plaintext. -/
theorem encryptPaillier_ok (hn : 1 < n) (hkey : publicKey = ⟨n, n + 1, n * n⟩) (hm : m < n)
    {draws : RandomBigInts (publicKey.n - 2)} (h : Finds n draws.draw) :
    ∃ c, encryptPaillier publicKey m draws = .ok c ∧ 0 ≤ c ∧ Encrypts n c m := by
  subst hkey
  obtain ⟨j, hr, hcop⟩ := encryptionRandom_ok draws.draw maxAttempts 0
    (by simpa [Finds] using h)
  have hdraw := draws.nonneg j
  have hsq : (1 : ℤ) < n * n := by exact_mod_cast Nat.one_lt_mul_iff.mpr (by omega)
  have hpos : (0 : ℤ) < n * n := by omega
  refine ⟨((n : ℤ) + 1) ^ m % (n * n) * ((draws.draw j + 2) ^ n % (n * n)) % (n * n), ?_,
    Int.emod_nonneg _ hpos.ne', ?_⟩
  · rw [encryptPaillier, if_neg (by simp only [not_or, not_lt, not_le]; omega)]
    simp only [hr, bind, Except.bind, modPow_ok (Int.natCast_nonneg _) hsq, Int.toNat_natCast]
    exact bigintRem_of_nonneg (mul_nonneg (Int.emod_nonneg _ hpos.ne')
      (Int.emod_nonneg _ hpos.ne')) hpos.ne'
  · refine ⟨(draws.draw j + 2).toNat, ?_, ?_⟩
    · rw [← Nat.isCoprime_iff_coprime, Int.toNat_of_nonneg (by omega),
        Int.isCoprime_iff_gcd_eq_one]
      exact hcop
    · rw [Int.toNat_of_nonneg (by omega)]
      exact (Int.mod_modEq _ _).trans ((Int.mod_modEq _ _).mul (Int.mod_modEq _ _))

theorem encryptPaillier_lt (hkey : publicKey.nSquared = n * n) (hn : 0 < n) {plaintext c : ℤ}
    {draws : RandomBigInts (publicKey.n - 2)}
    (h : encryptPaillier publicKey plaintext draws = .ok c) : c < n * n := by
  have hpos : (0 : ℤ) < n * n := by positivity
  rw [encryptPaillier] at h
  split at h
  · cases h
  · obtain ⟨r, -, h⟩ := bind_eq_ok h
    obtain ⟨gm, -, h⟩ := bind_eq_ok h
    obtain ⟨rn, -, h⟩ := bind_eq_ok h
    rw [hkey, bigintRem, if_neg hpos.ne'] at h
    rw [← Except.ok.inj h]
    exact Int.tmod_lt_of_pos _ hpos

/-- Without a draw coprime to `n` encryption throws. -/
theorem encryptPaillier_error (plaintext : ℤ) {draws : RandomBigInts (publicKey.n - 2)}
    (hkey : publicKey.n = n) (h : ¬ Finds n draws.draw) :
    ∃ e, encryptPaillier publicKey plaintext draws = .error e := by
  obtain ⟨e, he⟩ := encryptionRandom_error (n := publicKey.n) draws.draw maxAttempts 0
    (fun j hj hcop => h ⟨j, hj, by simpa [hkey] using hcop⟩)
  rw [encryptPaillier]
  split
  · exact ⟨_, rfl⟩
  · exact ⟨e, by simp [he, bind, Except.bind]⟩

end

end BioFire
