import BioFire.Mta
import BioFire.PaillierExpressions
import BioFire.Primality
import BioFire.SearchLoops
import Mathlib.Data.Rat.Floor

/-!
# The search for primes (`src/lib/crypto/paillier.ts`)

`generateSecurePrime` draws odd numbers of the given length, divides them by the small primes
and tests them; `generatePaillierKeys` looks for a second prime until it fits the first one. A
run is given its draws: a number for each candidate, and the bases of its test.

* `isProbablePrime_settles`: what the test answers, for composite numbers too;
* `generateSecurePrime_search`: the search finds the first candidate that passes;
* `bits_of_passes`: what is known of a number that was found;
* `generated_keys`: what is known of keys that were found.
-/

namespace BioFire

open Outcome

/-! ## The model -/

def SMALL_PRIMES : List ℤ := [
  2, 3, 5, 7, 11, 13, 17, 19, 23, 29, 31, 37, 41, 43, 47,
  53, 59, 61, 67, 71, 73, 79, 83, 89, 97, 101, 103, 107, 109,
  113, 127, 131, 137, 139, 149, 151, 157, 163, 167, 173, 179,
  181, 191, 193, 197, 199, 211, 223, 227, 229, 233, 239, 241,
  251, 257, 263, 269, 271, 277, 281, 283, 293, 307, 311, 313,
  317, 331, 337, 347, 349, 353, 359, 367, 373, 379, 383, 389,
  397, 401, 409, 419, 421, 431, 433, 439, 443, 449, 457, 461,
  463, 467, 479, 487, 491, 499, 503, 509, 521, 523, 541]

/-- `random | 1n | (1n << BigInt(bits - 1))` -/
def candidateOf (bits : ℕ) (random : ℤ) : ℤ :=
  (random.toNat ||| 1 ||| 2 ^ (bits - 1) : ℕ)

/-- The draws of a run that looks for primes of this length. -/
structure PrimeDraws (bits : ℕ) where
  random : RandomBigInts (2 ^ (bits - 1))
  /-- The bases with which each candidate is tested. -/
  bases : ℕ → ℕ → ℤ
  base_mem : ∀ k i, (2 : ℤ) < candidateOf bits (random.draw k) - 2 →
    2 ≤ bases k i ∧ bases k i < candidateOf bits (random.draw k) - 2

/-- The `k`-th candidate. -/
def PrimeDraws.candidate {bits : ℕ} (draws : PrimeDraws bits) (k : ℕ) : ℤ :=
  candidateOf bits (draws.random.draw k)

section

variable {bits : ℕ} (draws : PrimeDraws bits)

/-- One round: it takes the `k`-th candidate. -/
def primeRound (fuel k : ℕ) : Outcome JSError (ℕ ⊕ (ℤ × ℕ)) :=
  let candidate := draws.candidate k
  let divisible := SMALL_PRIMES.any fun p => candidate.tmod p = 0
  if divisible then .returns (.inl (k + 1))
  else (isProbablePrime candidate (.finite (40 : ℕ)) (draws.bases k) fuel).bind fun prime =>
    if prime then .returns (.inr (candidate, k + 1)) else .returns (.inl (k + 1))

/-- The search from the `k`-th candidate on, with the number of the next one. -/
def generateSecurePrime (fuel k : ℕ) : Outcome JSError (ℤ × ℕ) :=
  if bits < 512 then .throws (plainError (js "Prime bits must be at least 512 for security"))
  else Outcome.loop (primeRound draws fuel) fuel k

/-- One round of the loop that looks for `q`. -/
def secondPrimeRound (p : ℤ) (fuel k : ℕ) : Outcome JSError (ℕ ⊕ ℤ) :=
  (generateSecurePrime draws fuel k).bind fun (q, k') =>
    if q = p ∨ gcd (p - 1) (q - 1) ≠ 2 then .returns (.inl k') else .returns (.inr q)

end

def pBits (bitLength : ℚ) : ℕ := ⌊bitLength / 2⌋.toNat

def generatePaillierKeys (bitLength : ℚ) (draws : PrimeDraws (pBits bitLength)) (fuel : ℕ) :
    Outcome JSError PaillierKeyPair :=
  if bitLength < 1024 then
    .throws (plainError (js "Paillier bitLength must be at least 1024 for security"))
  else (generateSecurePrime draws fuel 0).bind fun (p, k) =>
    (Outcome.loop (secondPrimeRound draws p fuel) fuel k).bind fun q =>
      Outcome.ofExcept (paillierKeysOfPrimes p q)

/-! ## The test of any number -/

section

variable {n : ℤ} {bases : ℕ → ℤ}

theorem primalityRounds_eq (hn : 3 < n) {rounds r d : ℕ} (hrounds : rounds ≤ 2 ^ 53) (hr : 0 < r)
    (hbases : ∀ i, 2 ≤ bases i ∧ bases i < n - 2) (m t : ℕ) (hm : t + m = rounds) :
    ∃ prime, Outcome.loop (primalityRound n (.finite rounds) r d bases) (m + 1) (.finite t, t) =
        .returns prime ∧
      (prime = true ↔ ∀ i, t ≤ i → i < rounds → PassesRound n r d (bases i)) := by
  induction m generalizing t with
  | zero =>
    obtain rfl : t = rounds := by omega
    refine ⟨true, by simp [Outcome.loop, primalityRound], ?_⟩
    exact iff_of_true rfl fun i hi hlt => absurd hi (by omega)
  | succ m ih =>
    obtain ⟨prime, hrest, hprime⟩ := ih (t + 1) (by omega)
    obtain ⟨composite, hround, hcomposite⟩ :=
      compositeRound_eq (show 1 < n by omega) hr (bases t)
    have hrange : rangeDraw 2 (n - 2) (bases t) = .ok (bases t) := if_neg (by
      have hmem := hbases t
      omega)
    have hdraw : (rangeDraw 2 (n - 2) (bases t) >>= compositeRound n r d) = .ok composite := by
      rw [hrange, ← hround]
      rfl
    have hlt : (JSNumber.finite t).lt (.finite rounds) = true := by
      rw [JSNumber.lt_finite, decide_eq_true_eq]
      exact_mod_cast (by omega : t < rounds)
    have hbody : primalityRound n (.finite rounds) r d bases (.finite t, t) =
        if composite then .returns (.inr false)
        else .returns (.inl (.finite (t + 1 : ℕ), t + 1)) := by
      rw [primalityRound, hdraw, hlt, JSNumber.add_one_natCast (by omega), min_eq_left (by omega)]
      rfl
    rw [Outcome.loop, hbody]
    cases composite with
    | true =>
      refine ⟨false, rfl, iff_of_false (by simp) ?_⟩
      intro hall
      simpa using hcomposite.mpr (hall t le_rfl (by omega))
    | false =>
      refine ⟨prime, hrest, hprime.trans ?_⟩
      have hfirst := hcomposite.mp rfl
      constructor
      · intro hall i hi hlt
        rcases Nat.eq_or_lt_of_le hi with rfl | hlater
        · exact hfirst
        · exact hall i hlater hlt
      · exact fun hall i hi hlt => hall i (by omega) hlt

/-- The number passes the rounds with all of these bases. -/
def PassesRounds (n : ℤ) (rounds : ℕ) (bases : ℕ → ℤ) : Prop :=
  ∀ i < rounds, PassesRound n (oddPart 0 (n - 1).toNat).1 (oddPart 0 (n - 1).toNat).2 (bases i)

theorem isProbablePrime_steady (n : ℤ) (k : JSNumber) (bases : ℕ → ℤ) :
    Steady (isProbablePrime n k bases) := by
  intro fuel fuel' hle
  unfold isProbablePrime
  split
  · exact Below.refl _
  · split
    · exact Below.refl _
    · split
      · exact Below.refl _
      · exact Below.loop (fun s => Below.refl _) hle _

/-- **What the test answers.** An odd number above three passes or not, and the test ends. -/
theorem isProbablePrime_settles (hn : 3 < n) (hodd : n % 2 = 1) {rounds : ℕ}
    (hrounds : rounds ≤ 2 ^ 53) (hbases : ∀ i, 2 ≤ bases i ∧ bases i < n - 2) :
    ∃ prime, Settles (isProbablePrime n (.finite rounds) bases) (.returns prime) ∧
      (prime = true ↔ PassesRounds n rounds bases) := by
  have heven : 0 < (oddPart 0 (n - 1).toNat).1 := by
    obtain ⟨hprod, hpart⟩ := oddPart_spec 0 (n - 1).toNat (by omega)
    rcases Nat.eq_zero_or_pos (oddPart 0 (n - 1).toNat).1 with hzero | hpos
    · rw [hzero, pow_zero, one_mul, one_mul] at hprod
      omega
    · exact hpos
  have hrem : ¬ n.tmod 2 = 0 := by
    rw [Int.tmod_eq_emod_of_nonneg (by omega)]
    omega
  obtain ⟨prime, hloop, hprime⟩ := primalityRounds_eq hn hrounds heven hbases rounds 0 (by omega)
  refine ⟨prime, ?_, hprime.trans ?_⟩
  · refine ((isProbablePrime_steady n _ bases).settles_returns_iff).mpr ⟨rounds + 1, ?_⟩
    rw [Nat.cast_zero] at hloop
    rw [isProbablePrime, if_neg (by omega), if_neg (by omega), if_neg hrem]
    exact hloop
  · exact ⟨fun h i hi => h i (Nat.zero_le i) hi, fun h i _ hi => h i hi⟩

end

/-! ## Candidates -/

theorem candidateOf_bounds {bits : ℕ} (hbits : 2 ≤ bits) {random : ℤ}
    (hrandom : random < 2 ^ (bits - 1)) :
    2 ^ (bits - 1) ≤ candidateOf bits random ∧ candidateOf bits random < 2 ^ bits ∧
      candidateOf bits random % 2 = 1 := by
  obtain ⟨m, rfl⟩ : ∃ m, bits = m + 2 := ⟨bits - 2, by omega⟩
  have hdraw : random.toNat < 2 ^ (m + 2) := by
    have hpow : (2 : ℤ) ^ (m + 2 - 1) ≤ 2 ^ (m + 2) := pow_le_pow_right₀ (by decide) (by omega)
    have hpos : (0 : ℤ) < 2 ^ (m + 2) := by positivity
    zify
    omega
  have hone : 1 < 2 ^ (m + 2) := Nat.one_lt_two_pow (by omega)
  have htop : 2 ^ (m + 2 - 1) < 2 ^ (m + 2) := Nat.pow_lt_pow_right (by decide) (by omega)
  have hlow : 2 ^ (m + 2 - 1) ≤ random.toNat ||| 1 ||| 2 ^ (m + 2 - 1) := Nat.right_le_or
  have hhigh : random.toNat ||| 1 ||| 2 ^ (m + 2 - 1) < 2 ^ (m + 2) :=
    Nat.or_lt_two_pow (Nat.or_lt_two_pow hdraw hone) htop
  have hodd : (random.toNat ||| 1 ||| 2 ^ (m + 2 - 1)) % 2 = 1 := by
    rw [Nat.or_mod_two_eq_one, Nat.or_mod_two_eq_one]
    exact Or.inl (Or.inr rfl)
  rw [candidateOf]
  refine ⟨?_, ?_, ?_⟩
  · exact_mod_cast hlow
  · exact_mod_cast hhigh
  · exact_mod_cast hodd

theorem candidateOf_sub {bits c : ℕ} (hlow : 2 ^ (bits - 1) ≤ c) (hhigh : c < 2 * 2 ^ (bits - 1))
    (hbits : 2 ≤ bits) (hodd : c % 2 = 1) : candidateOf bits (c - 2 ^ (bits - 1) : ℕ) = c := by
  have heven : 2 ^ (bits - 1) % 2 = 0 := by
    obtain ⟨m, rfl⟩ : ∃ m, bits = m + 2 := ⟨bits - 2, by omega⟩
    rw [show m + 2 - 1 = m + 1 from rfl, pow_succ, Nat.mul_mod_left]
  have hone : (c - 2 ^ (bits - 1)) ||| 1 = c - 2 ^ (bits - 1) := by
    have hlast := Nat.two_pow_add_eq_or_of_lt (show 1 < 2 ^ 1 by decide)
      ((c - 2 ^ (bits - 1)) / 2)
    rw [show 2 ^ 1 * ((c - 2 ^ (bits - 1)) / 2) + 1 = c - 2 ^ (bits - 1) by omega] at hlast
    rw [hlast, Nat.or_assoc, Nat.or_self]
  have hsum := Nat.two_pow_add_eq_or_of_lt (show c - 2 ^ (bits - 1) < 2 ^ (bits - 1) by omega) 1
  rw [mul_one, Nat.or_comm] at hsum
  rw [candidateOf, Int.toNat_natCast, hone, ← hsum]
  congr 1
  omega

theorem mem_SMALL_PRIMES {r : ℕ} (hr : r.Prime) (hle : r ≤ 541) : (r : ℤ) ∈ SMALL_PRIMES := by
  have hsieve : ∀ r : ℕ, r ≤ 541 → r < 2 ∨
      (∃ d ∈ [2, 3, 5, 7, 11, 13, 17, 19, 23], d < r ∧ r % d = 0) ∨ (r : ℤ) ∈ SMALL_PRIMES := by
    decide +kernel
  rcases hsieve r hle with hlt | ⟨d, hd, hdr, hrem⟩ | hmem
  · exact absurd hr.two_le (by omega)
  · rcases (Nat.dvd_prime hr).mp (Nat.dvd_of_mod_eq_zero hrem) with rfl | rfl
    · simp at hd
    · exact absurd hdr (Nat.lt_irrefl d)
  · exact hmem

/-! ## The search -/

section

variable {bits : ℕ} (draws : PrimeDraws bits)

/-- The `k`-th candidate has no small divisor and passes with all of its bases. -/
def PassesTests (k : ℕ) : Prop :=
  (∀ p ∈ SMALL_PRIMES, ¬ p ∣ draws.candidate k) ∧
    PassesRounds (draws.candidate k) 40 (draws.bases k)

theorem candidate_bounds (hbits : 2 ≤ bits) (k : ℕ) :
    2 ^ (bits - 1) ≤ draws.candidate k ∧ draws.candidate k < 2 ^ bits ∧
      draws.candidate k % 2 = 1 :=
  candidateOf_bounds hbits (draws.random.lt_max k)

theorem lt_candidate (hbits : 512 ≤ bits) (k : ℕ) : 541 < draws.candidate k := by
  have hpow : (2 : ℤ) ^ 10 ≤ 2 ^ (bits - 1) := pow_le_pow_right₀ (by decide) (by omega)
  have hlow := (candidate_bounds draws (by omega) k).1
  omega

theorem bases_mem (hbits : 512 ≤ bits) (k i : ℕ) :
    2 ≤ draws.bases k i ∧ draws.bases k i < draws.candidate k - 2 := by
  have hlt := lt_candidate draws hbits k
  exact draws.base_mem k i (by
    rw [← PrimeDraws.candidate]
    omega)

theorem primeRound_steady (k : ℕ) : Steady fun fuel => primeRound draws fuel k := by
  intro fuel fuel' hle
  simp only [primeRound]
  split
  · exact Below.refl _
  · refine Below.bind (isProbablePrime_steady _ _ _ fuel fuel' hle) fun prime => Below.refl _

/-- A round takes its candidate, or goes on to the next one. -/
theorem primeRound_settles (hbits : 512 ≤ bits) (k : ℕ) :
    ∃ verdict, Settles (fun fuel => primeRound draws fuel k) (.returns verdict) ∧
      (PassesTests draws k → verdict = .inr (draws.candidate k, k + 1)) ∧
      (¬PassesTests draws k → verdict = .inl (k + 1)) := by
  have hlt := lt_candidate draws hbits k
  have hodd := (candidate_bounds draws (by omega) k).2.2
  have hdivisible : (SMALL_PRIMES.any fun p => (draws.candidate k).tmod p = 0) = true ↔
      ¬ ∀ p ∈ SMALL_PRIMES, ¬ p ∣ draws.candidate k := by
    simp [Int.dvd_iff_tmod_eq_zero]
  obtain ⟨prime, hsettles, hprime⟩ := isProbablePrime_settles (by omega) hodd
    (show 40 ≤ 2 ^ 53 by decide) (bases_mem draws hbits k)
  cases hany : SMALL_PRIMES.any fun p => (draws.candidate k).tmod p = 0 with
  | true =>
    refine ⟨.inl (k + 1), ?_, ?_, fun _ => rfl⟩
    · simp only [primeRound, hany, if_true]
      exact settles_const _
    · intro h
      exact absurd h.1 (hdivisible.mp hany)
  | false =>
    have hnone : ∀ p ∈ SMALL_PRIMES, ¬ p ∣ draws.candidate k := by
      by_contra h
      rw [hdivisible.mpr h] at hany
      cases hany
    refine ⟨if prime then .inr (draws.candidate k, k + 1) else .inl (k + 1), ?_, ?_, ?_⟩
    · simp only [primeRound, hany, Bool.false_eq_true, if_false]
      refine Settles.bind hsettles ?_
      cases prime <;> exact settles_const _
    · intro h
      rw [if_pos (hprime.mpr h.2)]
    · intro h
      rw [if_neg fun hpasses => h ⟨hnone, hprime.mp hpasses⟩]

/-- **The search for a prime** finds the first candidate that passes the tests. -/
theorem generateSecurePrime_search (hbits : 512 ≤ bits) :
    Search (PassesTests draws) (fun i => (draws.candidate i, i + 1))
      (generateSecurePrime draws) := by
  choose verdict hround hfound hnext using primeRound_settles draws hbits
  have hsearch := (search_of_rounds (primeRound_steady draws) hround).loop hfound hnext
  have hcall : generateSecurePrime draws =
      fun fuel => Outcome.loop (primeRound draws fuel) fuel := by
    funext fuel k
    rw [generateSecurePrime, if_neg (by omega)]
  rw [hcall]
  simpa only [true_and] using hsearch

theorem passesTests_of_prime (hbits : 512 ≤ bits) {k : ℕ}
    (hprime : (draws.candidate k).toNat.Prime) : PassesTests draws k := by
  have hlt := lt_candidate draws hbits k
  have hcast : ((draws.candidate k).toNat : ℤ) = draws.candidate k := Int.toNat_of_nonneg (by omega)
  constructor
  · intro p hp hdvd
    have hsmall : ∀ p ∈ SMALL_PRIMES, 2 ≤ p ∧ p ≤ 541 := by decide
    obtain ⟨htwo, hle⟩ := hsmall p hp
    obtain ⟨d, rfl⟩ := Int.eq_ofNat_of_zero_le (show 0 ≤ p by omega)
    rw [← hcast, Int.natCast_dvd_natCast] at hdvd
    rcases (Nat.dvd_prime hprime).mp hdvd with hone | hself
    · omega
    · omega
  · intro i _
    obtain ⟨hlow, hhigh⟩ := bases_mem draws hbits k i
    obtain ⟨hrd, -⟩ := oddPart_spec 0 (draws.candidate k - 1).toNat (by omega)
    rw [pow_zero, one_mul] at hrd
    have hpasses := passesRound_of_prime hprime (hrd.trans (by omega)) (a := draws.bases k i) (by
      intro hdvd
      have hle := Int.le_of_dvd (by omega) hdvd
      omega)
    rwa [hcast] at hpasses

theorem bits_of_passes (hbits : 512 ≤ bits) {k : ℕ} (h : PassesTests draws k) :
    (draws.candidate k).toNat.size = bits ∧
      ∀ r : ℕ, r.Prime → (r : ℤ) ∣ draws.candidate k → 541 < r := by
  obtain ⟨hlow, hhigh, -⟩ := candidate_bounds draws (by omega) k
  have hcast : ((draws.candidate k).toNat : ℤ) = draws.candidate k :=
    Int.toNat_of_nonneg ((show (0 : ℤ) ≤ 2 ^ (bits - 1) by positivity).trans hlow)
  constructor
  · have hle : (draws.candidate k).toNat.size ≤ bits := by
      rw [Nat.size_le]
      zify
      rwa [hcast]
    have hlt : bits - 1 < (draws.candidate k).toNat.size := by
      rw [Nat.lt_size]
      zify
      rwa [hcast]
    omega
  · intro r hr hdvd
    by_contra hle
    exact h.1 r (mem_SMALL_PRIMES hr (by omega)) hdvd

/-- **A prime ends the search.** When there is a prime among the candidates, the search ends
with it or with an earlier one; what it returns has the given number of bits, no prime factor up
to 541, and no base of its test against it, and no prime was passed over. -/
theorem prime_search (hbits : 512 ≤ bits) {k j : ℕ} (hkj : k ≤ j)
    (hprime : (draws.candidate j).toNat.Prime) :
    ∃ i, k ≤ i ∧ i ≤ j ∧
      Settles (fun fuel => generateSecurePrime draws fuel k)
        (.returns (draws.candidate i, i + 1)) ∧
      (draws.candidate i).toNat.size = bits ∧
      (∀ r : ℕ, r.Prime → (r : ℤ) ∣ draws.candidate i → 541 < r) ∧
      PassesRounds (draws.candidate i) 40 (draws.bases i) ∧
      ∀ earlier, k ≤ earlier → earlier < i → ¬ (draws.candidate earlier).toNat.Prime := by
  rcases Search.first_or_none (PassesTests draws) k with ⟨i, hi⟩ | hnone
  · obtain ⟨hsize, hfactors⟩ := bits_of_passes draws hbits hi.1.2
    refine ⟨i, hi.1.1, hi.2 ⟨hkj, passesTests_of_prime draws hbits hprime⟩,
      (generateSecurePrime_search draws hbits).finds hi, hsize, hfactors, hi.1.2.2, ?_⟩
    intro earlier hle hlt hearlier
    exact absurd (hi.2 ⟨hle, passesTests_of_prime draws hbits hearlier⟩) (by omega)
  · exact absurd (passesTests_of_prime draws hbits hprime) (hnone j hkj)

end

/-! ## Keys -/

/-- The second number fits the first one. -/
def Fits (p q : ℤ) : Prop := q ≠ p ∧ gcd (p - 1) (q - 1) = 2

section

variable {bitLength : ℚ} {draws : PrimeDraws (pBits bitLength)} {keyPair : PaillierKeyPair}

theorem le_pBits (h : 1024 ≤ bitLength) : 512 ≤ pBits bitLength := by
  have hfloor : (512 : ℤ) ≤ ⌊bitLength / 2⌋ := by
    rw [Int.le_floor]
    push_cast
    linarith
  rw [pBits]
  omega

theorem secondPrime_search {bits : ℕ} (draws : PrimeDraws bits) (hbits : 512 ≤ bits) (p : ℤ) :
    Search (fun j => PassesTests draws j ∧ Fits p (draws.candidate j)) draws.candidate
      fun fuel => Outcome.loop (secondPrimeRound draws p fuel) fuel := by
  let verdict : ℕ → ℕ ⊕ ℤ := fun j =>
    if draws.candidate j = p ∨ gcd (p - 1) (draws.candidate j - 1) ≠ 2 then .inl (j + 1)
    else .inr (draws.candidate j)
  have hround : Search (PassesTests draws) verdict (secondPrimeRound draws p) :=
    (generateSecurePrime_search draws hbits).map fun j => by
      dsimp only [verdict]
      split <;> rfl
  refine hround.loop (fun j hfits => if_neg ?_) fun j hfits => if_pos ?_
  · exact not_or.mpr ⟨hfits.1, not_not.mpr hfits.2⟩
  · by_contra h
    obtain ⟨hne, hgcd⟩ := not_or.mp h
    exact hfits ⟨hne, not_not.mp hgcd⟩

/-- **What key generation returns**: the keys of the first candidate that passes the tests and
the first one after it that passes and fits. -/
theorem generatePaillierKeys_returns_iff :
    Returns (generatePaillierKeys bitLength draws) keyPair ↔
      1024 ≤ bitLength ∧ ∃ i j, IsLeast {i | PassesTests draws i} i ∧
        IsLeast {j | i < j ∧ PassesTests draws j ∧
          Fits (draws.candidate i) (draws.candidate j)} j ∧
        paillierKeysOfPrimes (draws.candidate i) (draws.candidate j) = .ok keyPair := by
  by_cases hlength : bitLength < 1024
  · refine iff_of_false ?_ fun h => absurd h.1 (not_le.mpr hlength)
    rintro ⟨fuel, h⟩
    rw [generatePaillierKeys, if_pos hlength] at h
    cases h
  have hbits := le_pBits (not_lt.mp hlength)
  have hfirst := generateSecurePrime_search draws hbits
  constructor
  · rintro ⟨fuel, h⟩
    rw [generatePaillierKeys, if_neg hlength] at h
    obtain ⟨⟨p, k⟩, hp, h⟩ := Outcome.bind_eq_returns h
    obtain ⟨q, hq, h⟩ := Outcome.bind_eq_returns h
    obtain ⟨i, hi, hpair⟩ := hfirst.returns_iff.mp ⟨fuel, hp⟩
    cases hpair
    obtain ⟨j, hj, rfl⟩ := (secondPrime_search draws hbits _).returns_iff.mp ⟨fuel, hq⟩
    simp only [Nat.zero_le, true_and] at hi
    exact ⟨not_lt.mp hlength, i, j, hi, hj, Outcome.ofExcept_eq_returns h⟩
  · rintro ⟨-, i, j, hi, hj, hkeys⟩
    have hp := hfirst.finds (k := 0) (i := i) (by simpa only [Nat.zero_le, true_and] using hi)
    have hq := (secondPrime_search draws hbits (draws.candidate i)).finds (k := i + 1) (i := j) hj
    have hrest := Settles.bind
      (g := fun _ q => Outcome.ofExcept (paillierKeysOfPrimes (draws.candidate i) q)) hq
      (settles_const _)
    have hcall := Settles.bind (g := fun fuel (pk : ℤ × ℕ) =>
      (Outcome.loop (secondPrimeRound draws pk.1 fuel) fuel pk.2).bind fun q =>
        Outcome.ofExcept (paillierKeysOfPrimes pk.1 q)) hp hrest
    rw [hkeys] at hcall
    obtain ⟨fuel, hfuel⟩ := hcall
    refine ⟨fuel, ?_⟩
    rw [generatePaillierKeys, if_neg hlength]
    exact hfuel fuel le_rfl

theorem paillierKeysOfPrimes_ok {p q : ℤ} (h : paillierKeysOfPrimes p q = .ok keyPair) :
    keyPair.privateKey.p = p ∧ keyPair.privateKey.q = q ∧ keyPair.publicKey.n = p * q := by
  obtain ⟨lambda, -, h⟩ := bind_eq_ok h
  obtain ⟨gLambda, -, h⟩ := bind_eq_ok h
  obtain ⟨l, -, h⟩ := bind_eq_ok h
  obtain ⟨mu, -, h⟩ := bind_eq_ok h
  cases h
  exact ⟨rfl, rfl, rfl⟩

/-- The product of two numbers of one length has twice that length, or one bit less. -/
theorem size_mul {p q bits : ℕ} (hbits : 0 < bits) (hp : p.size = bits) (hq : q.size = bits) :
    (p * q).size = 2 * bits - 1 ∨ (p * q).size = 2 * bits := by
  obtain ⟨m, rfl⟩ : ∃ m, bits = m + 1 := ⟨bits - 1, by omega⟩
  have hlow : 2 ^ (m + m) ≤ p * q := by
    rw [pow_add]
    exact Nat.mul_le_mul (Nat.lt_size.mp (by omega)) (Nat.lt_size.mp (by omega))
  have hhigh : p * q < 2 ^ ((m + 1) + (m + 1)) := by
    rw [pow_add]
    exact Nat.mul_lt_mul_of_lt_of_lt (Nat.size_le.mp (by omega)) (Nat.size_le.mp (by omega))
  have hmore := Nat.lt_size.mpr hlow
  have hless := Nat.size_le.mpr hhigh
  omega

/-- **Generated keys.** The factors have half of the length and differ, the predecessors share
only the factor two, the modulus has the whole length or one bit less and no prime factor up to
541; and keys whose factors are prime decrypt every expression over ciphertexts to its value. -/
theorem generated_keys (h : Returns (generatePaillierKeys bitLength draws) keyPair) :
    ∃ p q : ℕ, keyPair.privateKey.p = p ∧ keyPair.privateKey.q = q ∧
      keyPair.publicKey.n = (p * q : ℕ) ∧ p ≠ q ∧ p.size = pBits bitLength ∧
      q.size = pBits bitLength ∧ Nat.gcd (p - 1) (q - 1) = 2 ∧
      ((p * q).size = 2 * pBits bitLength - 1 ∨ (p * q).size = 2 * pBits bitLength) ∧
      (∀ r, r.Prime → r ∣ p * q → 541 < r) ∧
      (p.Prime → q.Prime → ∀ expr : EncryptedExpr keyPair.publicKey, expr.Admissible →
        ∃ c, expr.eval = .ok c ∧
          decryptPaillier keyPair.privateKey keyPair.publicKey c =
            .ok (expr.value % (p * q : ℕ))) := by
  obtain ⟨hlength, i, j, hi, hj, hkeys⟩ := generatePaillierKeys_returns_iff.mp h
  have hbits := le_pBits hlength
  obtain ⟨hp, hq, hn⟩ := paillierKeysOfPrimes_ok hkeys
  obtain ⟨hsizep, hfactorsp⟩ := bits_of_passes draws hbits hi.1
  obtain ⟨hsizeq, hfactorsq⟩ := bits_of_passes draws hbits hj.1.2.1
  obtain ⟨hne, hgcd⟩ := hj.1.2.2
  have hltp := lt_candidate draws hbits i
  have hltq := lt_candidate draws hbits j
  obtain ⟨p, hcastp⟩ := Int.eq_ofNat_of_zero_le (show 0 ≤ draws.candidate i by omega)
  obtain ⟨q, hcastq⟩ := Int.eq_ofNat_of_zero_le (show 0 ≤ draws.candidate j by omega)
  rw [hcastp, hcastq] at hgcd hkeys hne hn
  rw [hcastp] at hp hsizep hfactorsp hltp
  rw [hcastq] at hq hsizeq hfactorsq hltq
  rw [Int.toNat_natCast] at hsizep hsizeq
  have hdiffer : p ≠ q := by
    rintro rfl
    exact hne rfl
  refine ⟨p, q, hp, hq, hn.trans (by push_cast; rfl), hdiffer, hsizep, hsizeq, ?_,
    size_mul (by omega) hsizep hsizeq, ?_, ?_⟩
  · rw [gcd_eq, show (p : ℤ) - 1 = (p - 1 : ℕ) by omega, show (q : ℤ) - 1 = (q - 1 : ℕ) by omega,
      Int.gcd_natCast_natCast] at hgcd
    exact_mod_cast hgcd
  · intro r hr hdvd
    rcases hr.dvd_mul.mp hdvd with hdvd | hdvd
    · exact hfactorsp r hr (Int.natCast_dvd_natCast.mpr hdvd)
    · exact hfactorsq r hr (Int.natCast_dvd_natCast.mpr hdvd)
  · intro hprimep hprimeq expr hexpr
    let keys : GeneratedKeys := ⟨p, q, hprimep, hprimeq, hdiffer, keyPair, hkeys⟩
    obtain ⟨c, m, heval, hpos, hlt, hc, hvalue⟩ :=
      expr.eval_encrypts keys.one_lt_n keys.publicKey_eq hexpr
    refine ⟨c, heval, ?_⟩
    rw [hvalue]
    exact keys.decryptPaillier_encrypts hc hpos hlt

theorem keys_of_primes (hlength : 1024 ≤ bitLength) {i j : ℕ}
    (hi : IsLeast {i | PassesTests draws i} i)
    (hj : IsLeast {j | i < j ∧ PassesTests draws j ∧
      Fits (draws.candidate i) (draws.candidate j)} j)
    (hp : (draws.candidate i).toNat.Prime) (hq : (draws.candidate j).toNat.Prime) :
    ∃ keyPair, Returns (generatePaillierKeys bitLength draws) keyPair := by
  have hbits := le_pBits hlength
  have hltp := lt_candidate draws hbits i
  have hltq := lt_candidate draws hbits j
  obtain ⟨p, hcastp⟩ := Int.eq_ofNat_of_zero_le (show 0 ≤ draws.candidate i by omega)
  obtain ⟨q, hcastq⟩ := Int.eq_ofNat_of_zero_le (show 0 ≤ draws.candidate j by omega)
  have hne : p ≠ q := by
    rintro rfl
    exact hj.1.2.2.1 (hcastq.trans hcastp.symm)
  have hsize : p.size = q.size := by
    have hsizep := (bits_of_passes draws hbits hi.1).1
    have hsizeq := (bits_of_passes draws hbits hj.1.2.1).1
    rw [hcastp, Int.toNat_natCast] at hsizep
    rw [hcastq, Int.toNat_natCast] at hsizeq
    rw [hsizep, hsizeq]
  rw [hcastp, Int.toNat_natCast] at hp
  rw [hcastq, Int.toNat_natCast] at hq
  obtain ⟨keys, rfl, rfl⟩ := GeneratedKeys.exists_of_coprime hp hq hne
    (coprime_lambda hp hq (by omega) (by omega) hsize)
  refine ⟨keys.keyPair, generatePaillierKeys_returns_iff.mpr ⟨hlength, i, j, hi, hj, ?_⟩⟩
  rw [hcastp, hcastq]
  exact keys.generated

end

/-! ## Keys of 1024 bits -/

theorem pBits_1024 : pBits 1024 = 512 := by
  have hfloor : ⌊(1024 : ℚ) / 2⌋ = 512 := by norm_num
  rw [pBits, hfloor]
  rfl

/-- The numbers that are drawn. -/
def drawnPrime (k : ℕ) : ℕ := if k = 0 then smoothPrime else prothPrime

theorem drawnPrime_prime (k : ℕ) : (drawnPrime k).Prime := by
  rw [drawnPrime]
  split
  · exact smoothPrime_prime
  · exact prothPrime_prime

theorem drawnPrime_bounds (k : ℕ) :
    2 ^ (pBits 1024 - 1) ≤ drawnPrime k ∧ drawnPrime k < 2 * 2 ^ (pBits 1024 - 1) := by
  rw [pBits_1024, drawnPrime]
  split <;> decide +kernel

/-- A run that draws one prime for `p` and then another one. -/
def twoPrimes : PrimeDraws (pBits 1024) where
  random :=
    { draw := fun k => (drawnPrime k - 2 ^ (pBits 1024 - 1) : ℕ)
      nonneg := fun k => Int.natCast_nonneg _
      lt_max := fun k => by
        have hhigh := (drawnPrime_bounds k).2
        exact_mod_cast (show drawnPrime k - 2 ^ (pBits 1024 - 1) < 2 ^ (pBits 1024 - 1) by omega) }
  bases _ _ := 2
  base_mem k i hlt := ⟨le_rfl, hlt⟩

theorem candidate_twoPrimes (k : ℕ) : twoPrimes.candidate k = drawnPrime k := by
  obtain ⟨hlow, hhigh⟩ := drawnPrime_bounds k
  have hodd : drawnPrime k % 2 = 1 := by
    rw [drawnPrime]
    split <;> decide +kernel
  exact candidateOf_sub hlow hhigh (by rw [pBits_1024]; decide) hodd

theorem candidate_twoPrimes_prime (k : ℕ) : (twoPrimes.candidate k).toNat.Prime := by
  rw [candidate_twoPrimes, Int.toNat_natCast]
  exact drawnPrime_prime k

theorem prime_search_first : ∃ i, i ≤ 0 ∧
    Settles (fun fuel => generateSecurePrime twoPrimes fuel 0)
      (.returns (twoPrimes.candidate i, i + 1)) := by
  obtain ⟨i, -, hi, hsettles, -⟩ := prime_search twoPrimes (by rw [pBits_1024]) (le_refl 0)
    (candidate_twoPrimes_prime 0)
  exact ⟨i, hi, hsettles⟩

theorem returns_twoPrimes : ∃ keyPair, Returns (generatePaillierKeys 1024 twoPrimes) keyPair := by
  have hpasses : ∀ k, PassesTests twoPrimes k := fun k =>
    passesTests_of_prime twoPrimes (by rw [pBits_1024]) (candidate_twoPrimes_prime k)
  have hfits : Fits (twoPrimes.candidate 0) (twoPrimes.candidate 1) := by
    rw [candidate_twoPrimes, candidate_twoPrimes]
    refine ⟨by decide +kernel, ?_⟩
    rw [gcd_eq]
    decide +kernel
  refine keys_of_primes le_rfl (i := 0) (j := 1) ⟨hpasses 0, fun i _ => Nat.zero_le i⟩
    ⟨⟨Nat.one_pos, hpasses 1, hfits⟩, fun j hj => hj.1⟩ (candidate_twoPrimes_prime 0)
    (candidate_twoPrimes_prime 1)

theorem generated_keys_two : ∃ keyPair : PaillierKeyPair, ∃ p q : ℕ,
    keyPair.privateKey.p = p ∧ keyPair.privateKey.q = q ∧ p ≠ q ∧ p.size = pBits 1024 ∧
      q.size = pBits 1024 ∧ Nat.gcd (p - 1) (q - 1) = 2 := by
  obtain ⟨keyPair, hreturns⟩ := returns_twoPrimes
  obtain ⟨p, q, hp, hq, -, hne, hsizep, hsizeq, hgcd, -⟩ := generated_keys hreturns
  exact ⟨keyPair, p, q, hp, hq, hne, hsizep, hsizeq, hgcd⟩

end BioFire
