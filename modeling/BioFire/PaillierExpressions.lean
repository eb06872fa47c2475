import BioFire.Paillier
import Mathlib.Data.Nat.Size
import Mathlib.Tactic.NormNum.Prime

/-!
# Computing on Paillier ciphertexts

* `coprime_lambda`: for distinct odd primes of one bit length `lambda` is prime to
  `n`, so that key generation finds `mu`;
* `EncryptedExpr.eval_encrypts`: an expression over ciphertexts evaluates to a
  ciphertext of its value;
* `paillier_expressions`: hence the keys of such primes decrypt every expression.
-/

namespace BioFire

/-! ## Keys -/

/-- A prime does not divide the predecessor of another one below its double. -/
theorem coprime_pred {p q : ℕ} (hp : p.Prime) (hq : q.Prime) (hq₂ : q ≠ 2) (hp₂ : p ≠ 2)
    (hlt : q < 2 * p) : Nat.Coprime p (q - 1) := by
  refine (Nat.Prime.coprime_iff_not_dvd hp).mpr ?_
  rintro ⟨k, hk⟩
  have hq₁ := hq.two_le
  have hodd := hq.eq_two_or_odd.resolve_left hq₂
  have hpodd := hp.eq_two_or_odd.resolve_left hp₂
  rcases Nat.lt_or_ge k 2 with h | h
  · interval_cases k
    · omega
    · omega
  · have hle := Nat.mul_le_mul_left p h
    omega

theorem lt_two_mul_of_size_eq {p q : ℕ} (hp : 0 < p) (hsize : p.size = q.size) : q < 2 * p := by
  have hlow : 2 ^ (p.size - 1) ≤ p := Nat.lt_size.mp (by
    have hpos := Nat.size_pos.mpr hp
    omega)
  have hhigh : q < 2 ^ p.size := hsize ▸ Nat.lt_size_self q
  have hsucc : 2 ^ p.size = 2 * 2 ^ (p.size - 1) := by
    rw [← pow_succ', Nat.sub_add_cancel (Nat.size_pos.mpr hp)]
  omega

theorem coprime_lambda {p q : ℕ} (hp : p.Prime) (hq : q.Prime) (hp₂ : p ≠ 2) (hq₂ : q ≠ 2)
    (hsize : p.size = q.size) :
    Nat.Coprime (Nat.lcm (p - 1) (q - 1)) (p * q) := by
  have hself : ∀ {r : ℕ}, r.Prime → Nat.Coprime r (r - 1) := by
    intro r hr
    exact (Nat.coprime_self_sub_right hr.one_le).mpr (Nat.coprime_one_right r)
  have hpq := coprime_pred hp hq hq₂ hp₂ (lt_two_mul_of_size_eq hp.pos hsize)
  have hqp := coprime_pred hq hp hp₂ hq₂ (lt_two_mul_of_size_eq hq.pos hsize.symm)
  have hprod : Nat.Coprime ((p - 1) * (q - 1)) (p * q) := by
    refine Nat.Coprime.mul_left ?_ ?_
    · exact Nat.Coprime.mul_right (hself hp).symm hqp.symm
    · exact Nat.Coprime.mul_right hpq.symm (hself hq).symm
  exact hprod.coprime_dvd_left (Nat.lcm_dvd (dvd_mul_right _ _) (dvd_mul_left _ _))

/-! ## Expressions -/

/-- What can be computed from encryptions under a public key. -/
inductive EncryptedExpr (publicKey : PaillierPublicKey) where
  | encrypt (plaintext : ℤ) (draws : RandomBigInts (publicKey.n - 2))
  | add (a b : EncryptedExpr publicKey)
  | scale (a : EncryptedExpr publicKey) (scalar : ℤ)

namespace EncryptedExpr

variable {publicKey : PaillierPublicKey}

/-- The ciphertext of an expression. -/
def eval : EncryptedExpr publicKey → Except JSError ℤ
  | encrypt plaintext draws => encryptPaillier publicKey plaintext draws
  | add a b => do addEncrypted publicKey (← a.eval) (← b.eval)
  | scale a scalar => do multiplyEncryptedByScalar publicKey (← a.eval) scalar

/-- The same expression over the plaintexts. -/
def value : EncryptedExpr publicKey → ℤ
  | encrypt plaintext _ => plaintext
  | add a b => a.value + b.value
  | scale a scalar => a.value * scalar

/-- Plaintexts in `[0, n)`, draws that give a number coprime to `n`, and scalars that
are not negative. -/
def Admissible : EncryptedExpr publicKey → Prop
  | encrypt plaintext draws =>
    0 ≤ plaintext ∧ plaintext < publicKey.n ∧ Finds publicKey.n.toNat draws.draw
  | add a b => a.Admissible ∧ b.Admissible
  | scale a scalar => a.Admissible ∧ 0 ≤ scalar

/-- **Evaluation** gives a ciphertext of the value, within the range of ciphertexts. -/
theorem eval_encrypts {n : ℕ} (hn : 1 < n) (hkey : publicKey = ⟨n, n + 1, n * n⟩)
    (expr : EncryptedExpr publicKey) (h : expr.Admissible) :
    ∃ (c : ℤ) (m : ℕ), expr.eval = .ok c ∧ 0 < c ∧ c < n * n ∧ Encrypts n c m ∧
      expr.value = m := by
  subst hkey
  have hsq : (1 : ℤ) < n * n := by exact_mod_cast Nat.one_lt_mul_iff.mpr (by omega)
  have hrange : ∀ {c : ℤ} {m : ℕ}, Encrypts n c m → 0 < c % (n * n) ∧ c % (n * n) < (n * n : ℤ) :=
    fun hc => ⟨hc.emod_pos hn, Int.emod_lt_of_pos _ (by omega)⟩
  induction expr with
  | encrypt plaintext draws =>
    obtain ⟨hm₀, hm, hfinds⟩ := h
    obtain ⟨m, rfl⟩ := Int.eq_ofNat_of_zero_le hm₀
    have hm' : m < n := by exact_mod_cast (show (m : ℤ) < n from hm)
    obtain ⟨c, hc, hc₀, hcm⟩ := encryptPaillier_ok hn rfl hm' hfinds
    have hlt := encryptPaillier_lt rfl (by omega) hc
    refine ⟨c, m, hc, ?_, hlt, hcm, rfl⟩
    rw [← Int.emod_eq_of_lt hc₀ hlt]
    exact hcm.emod_pos hn
  | add a b iha ihb =>
    obtain ⟨c₁, m₁, heval₁, hpos₁, -, hc₁, hvalue₁⟩ := iha h.1
    obtain ⟨c₂, m₂, heval₂, hpos₂, -, hc₂, hvalue₂⟩ := ihb h.2
    have hmul := hc₁.mul hc₂
    obtain ⟨hpos, hlt⟩ := hrange hmul
    refine ⟨c₁ * c₂ % (n * n), m₁ + m₂, ?_, hpos, hlt, hmul.congr (Int.mod_modEq _ _), ?_⟩
    · simp only [eval, heval₁, heval₂, bind, Except.bind, addEncrypted]
      exact bigintRem_of_nonneg (mul_pos hpos₁ hpos₂).le (by omega)
    · rw [value, hvalue₁, hvalue₂, Nat.cast_add]
  | scale a scalar ih =>
    obtain ⟨c, m, heval, -, -, hc, hvalue⟩ := ih h.1
    obtain ⟨k, rfl⟩ := Int.eq_ofNat_of_zero_le h.2
    have hpow := hc.pow k
    obtain ⟨hpos, hlt⟩ := hrange hpow
    refine ⟨c ^ k % (n * n), m * k, ?_, hpos, hlt, hpow.congr (Int.mod_modEq _ _), ?_⟩
    · simp only [eval, heval, bind, Except.bind, multiplyEncryptedByScalar]
      exact modPow_ok h.2 hsq
    · rw [value, hvalue, Nat.cast_mul]

end EncryptedExpr

/-- **Keys of distinct odd primes of one bit length** exist and decrypt every expression
to its value modulo `n`. -/
theorem paillier_expressions {p q : ℕ} (hp : p.Prime) (hq : q.Prime) (hne : p ≠ q) (hp₂ : p ≠ 2)
    (hq₂ : q ≠ 2) (hsize : p.size = q.size) :
    (∃ keyPair, paillierKeysOfPrimes p q = .ok keyPair) ∧
      ∀ keyPair, paillierKeysOfPrimes p q = .ok keyPair →
        ∀ expr : EncryptedExpr keyPair.publicKey, expr.Admissible →
          ∃ c, expr.eval = .ok c ∧
            decryptPaillier keyPair.privateKey keyPair.publicKey c =
              .ok (expr.value % (p * q : ℕ)) := by
  constructor
  · obtain ⟨keys, rfl, rfl⟩ := GeneratedKeys.exists_of_coprime hp hq hne
      (coprime_lambda hp hq hp₂ hq₂ hsize)
    exact ⟨keys.keyPair, keys.generated⟩
  · intro keyPair hgenerated expr hexpr
    let keys : GeneratedKeys := ⟨p, q, hp, hq, hne, keyPair, hgenerated⟩
    obtain ⟨c, m, heval, hpos, hlt, hc, hvalue⟩ :=
      expr.eval_encrypts keys.one_lt_n keys.publicKey_eq hexpr
    exact ⟨c, heval, by rw [hvalue]; exact keys.decryptPaillier_encrypts hc hpos hlt⟩

/-- `5 + 3 * 7` under the keys of 11 and 13. -/
def sampleExpr : EncryptedExpr (keyPairOf 11 13 31).publicKey :=
  let draws : RandomBigInts 141 := ⟨fun _ => 1, fun _ => by decide, fun _ => by decide⟩
  .add (.encrypt 5 draws) (.scale (.encrypt 7 draws) 3)

theorem paillier_expressions_sample :
    (∃ keyPair, paillierKeysOfPrimes 11 13 = .ok keyPair) ∧
      ∃ c, sampleExpr.eval = .ok c ∧
        decryptPaillier (keyPairOf 11 13 31).privateKey (keyPairOf 11 13 31).publicKey c = .ok 26 :=
  have h := paillier_expressions (p := 11) (q := 13) (by norm_num) (by norm_num) (by norm_num)
    (by norm_num) (by norm_num) (by decide)
  ⟨h.1, h.2 (keyPairOf 11 13 31) (by with_unfolding_all rfl) sampleExpr
    ⟨⟨by decide, by decide, 0, by decide, by decide⟩, ⟨by decide, by decide, 0, by decide, by decide⟩,
      by decide⟩⟩

end BioFire
