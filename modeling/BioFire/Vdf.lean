import BioFire.BigIntText
import BioFire.ByteNumbers
import BioFire.CountingLoops
import BioFire.NumberString
import BioFire.TextEncoding

/-!
# Time locks (`src/lib/governance/vdf/vdf_engine.ts`)

The delay function and the envelopes around it. SHA-256 is a parameter. The loop of
`evaluateVDF` counts in double precision, where no number above `2 ^ 53` is reached
by ones; it is fuelled.

* `evaluateVDF_returns_iff`: which evaluations return, and what;
* `verifyVDF_iff`: which proofs are accepted;
* `evaluateVDF_complete_iff`, `verifyTimeLock_sound_iff`, `envelope_accepted_iff`: how
  little the two have to do with each other.
-/

namespace BioFire.Governance

structure VDFProof where
  challenge : JSString
  result : JSString
  proof : JSString
  iterations : JSNumber
  verificationTimeMs : JSNumber

structure TimeLockEnvelope where
  payload : JSString
  notBeforeVdf : VDFProof
  createdAt : JSNumber
  minimumDelaySeconds : JSNumber

def VDF_MODULUS_HEX : JSString := js "0x" ++ List.replicate 512 102

/-- The text of a challenge. -/
def challengeText (approvalId approverId : JSString) (timestamp minimumDelaySeconds : JSNumber) :
    JSString :=
  approvalId ++ js ":" ++ approverId ++ js ":" ++ numberString timestamp ++ js ":" ++
    numberString minimumDelaySeconds

variable (sha256 : Bytes → Digest)

def generateVDFChallenge (approvalId approverId : JSString)
    (timestamp minimumDelaySeconds : JSNumber) : JSString :=
  js "0x" ++ bytesToHex (sha256 (textEncode
    (challengeText approvalId approverId timestamp minimumDelaySeconds))).1

/-- `r`, from the hash of `x` and `y`. -/
def vdfHash (x y N : ℤ) : Except JSError ℤ := do
  let digest := sha256 (textEncode (bigintString x ++ js ":" ++ bigintString y))
  bigintRem (← bigintOfString (js "0x" ++ bytesToHex digest.1)) N

/-- One round of the loop over `i`, with `y`. -/
def squaringRound (N : ℤ) (T : JSNumber) (s : JSNumber × ℤ) :
    Outcome JSError ((JSNumber × ℤ) ⊕ ℤ) :=
  if s.1.lt T then
    (Outcome.ofExcept (bigintRem (s.2 * s.2) N)).bind fun y =>
      .returns (.inl (s.1.add (.finite 1), y))
  else .returns (.inr s.2)

/-- `evaluateVDF`, which takes the time `evalTime`. -/
def evaluateVDF (fuel : ℕ) (challenge : JSString) (T evalTime : JSNumber) :
    Outcome JSError VDFProof :=
  (Outcome.ofExcept do
    let N ← bigintOfString VDF_MODULUS_HEX
    return (N, ← bigintRem (← bigintOfString challenge) N)).bind fun (N, x) =>
  (Outcome.loop (squaringRound N T) fuel (.finite 0, x)).bind fun y =>
  Outcome.ofExcept do
    let r ← vdfHash sha256 x y N
    let proof ← modPow x ((← bigintOfNumber T) - r) N
    return {
      challenge
      result := js "0x" ++ toString16 y
      proof := js "0x" ++ toString16 proof
      iterations := T
      verificationTimeMs := evalTime }

/-- The body of the `try`. -/
def checkVDF (proof : VDFProof) : Except JSError Bool := do
  let N ← bigintOfString VDF_MODULUS_HEX
  let x ← bigintRem (← bigintOfString proof.challenge) N
  let y ← bigintOfString proof.result
  let pi ← bigintOfString proof.proof
  let T := proof.iterations
  -- `r` is computed and not used
  let _r ← vdfHash sha256 x y N
  let lhs ← modPow pi (← bigintOfNumber T) N
  return decide (lhs = y)

def verifyVDF (proof : VDFProof) : Bool :=
  match checkVDF sha256 proof with
  | .ok accepted => accepted
  | .error _ => false

/-- `createTimeLockedApproval` at the time `now`, with its `evaluateVDF`. -/
def createTimeLockedApproval (evaluateVDF : JSString → JSNumber → Outcome JSError VDFProof)
    (approvalId approverId payload : JSString) (minimumDelaySeconds : JSNumber) (now : ℤ) :
    Outcome JSError TimeLockEnvelope :=
  let challenge :=
    generateVDFChallenge sha256 approvalId approverId (.ofInt now) minimumDelaySeconds
  let T := minimumDelaySeconds.mulRat 1000000
  (evaluateVDF challenge T).bind fun vdfProof =>
    .returns ⟨payload, vdfProof, .ofInt now, minimumDelaySeconds⟩

/-- `verifyTimeLock`, with its `verifyVDF`. -/
def verifyTimeLockWith (verifyVDF : VDFProof → Bool) (envelope : TimeLockEnvelope) : Bool :=
  if !verifyVDF envelope.notBeforeVdf then false
  else
    let expectedChallenge := generateVDFChallenge sha256 envelope.payload (js "system")
      envelope.createdAt envelope.minimumDelaySeconds
    if envelope.notBeforeVdf.challenge ≠ expectedChallenge then false else true

def verifyTimeLock (envelope : TimeLockEnvelope) : Bool :=
  verifyTimeLockWith sha256 (verifyVDF sha256) envelope

variable {sha256}

/-! ## The modulus and the hash -/

/-- The modulus: 512 hexadecimal digits `f`. -/
@[irreducible] def vdfModulus : ℤ := (16 ^ 512 - 1 : ℕ)

theorem bigintOfString_modulus : bigintOfString VDF_MODULUS_HEX = .ok vdfModulus := by
  have hdigits : VDF_MODULUS_HEX = js "0x" ++ (List.replicate 512 15).map hexDigit := by
    rw [List.map_replicate]
    rfl
  have hvalue : (List.replicate 512 15).foldl (fun value d => value * 16 + d) 0 = 16 ^ 512 - 1 := by
    decide +kernel
  have hsmall : ∀ d ∈ List.replicate 512 15, d < 16 := by
    intro d hd
    rw [List.eq_of_mem_replicate hd]
    decide
  rw [hdigits, bigintOfString_hex hsmall (List.cons_ne_nil _ _), hvalue, vdfModulus]

theorem hash_lt_modulus : (256 : ℤ) ^ 32 < vdfModulus := by
  rw [vdfModulus]
  decide +kernel

theorem one_lt_modulus : 1 < vdfModulus := lt_trans (by norm_num) hash_lt_modulus

/-- The number with the bytes of the hash of `x` and `y`. -/
def hashNumber (sha256 : Bytes → Digest) (x y : ℤ) : ℤ :=
  bytesToBigInt (sha256 (textEncode (bigintString x ++ js ":" ++ bigintString y))).1

theorem vdfHash_eq (x y : ℤ) : vdfHash sha256 x y vdfModulus = .ok (hashNumber sha256 x y) := by
  have hlen := (sha256 (textEncode (bigintString x ++ js ":" ++ bigintString y))).2
  have hne : (sha256 (textEncode (bigintString x ++ js ":" ++ bigintString y))).1 ≠ [] := by
    intro h
    rw [h] at hlen
    cases hlen
  obtain ⟨hnonneg, hlt⟩ :=
    bytesToBigInt_bounds (sha256 (textEncode (bigintString x ++ js ":" ++ bigintString y))).1
  rw [hlen] at hlt
  have hmodulus := hash_lt_modulus
  have hpos := one_lt_modulus
  simp only [vdfHash, bigintOfString_bytesToHex hne, bind, Except.bind]
  rw [bigintRem_of_nonneg hnonneg (by omega), Int.emod_eq_of_lt hnonneg (hlt.trans hmodulus)]
  rfl

/-! ## The loop of `evaluateVDF` -/

/-- `y` after `t` rounds. -/
def squarings (x : ℤ) (t : ℕ) : ℤ := (fun y => y * y % vdfModulus)^[t] x

@[simp] theorem squarings_zero (x : ℤ) : squarings x 0 = x := rfl

theorem squarings_succ (x : ℤ) (t : ℕ) :
    squarings x (t + 1) = squarings x t * squarings x t % vdfModulus :=
  Function.iterate_succ_apply' _ t x

theorem counting_squaringRound (T : JSNumber) :
    Counting T (squaringRound vdfModulus T) (fun y => y * y % vdfModulus) id := by
  intro i y
  have hpos := one_lt_modulus
  rw [squaringRound, bigintRem_of_nonneg (mul_self_nonneg y) (by omega)]
  rfl

theorem loop_returns (x : ℤ) {t : ℕ} (ht : t ≤ 2 ^ 53) :
    Outcome.loop (squaringRound vdfModulus (.finite t)) (t + 1) (.finite 0, x) =
      .returns (squarings x t) :=
  (counting_squaringRound (.finite t)).loop_returns (rounds_natCast ht) x

theorem of_loop_returns {x y : ℤ} {t fuel : ℕ}
    (h : Outcome.loop (squaringRound vdfModulus (.finite t)) fuel (.finite 0, x) = .returns y) :
    t ≤ 2 ^ 53 ∧ y = squarings x t := by
  obtain ⟨t', hrounds, heq⟩ := (counting_squaringRound (.finite t)).returns_iff.mp ⟨fuel, h⟩
  obtain rfl := hrounds.natCast_eq
  exact ⟨hrounds.le_two_pow, heq⟩

theorem bigintOfNumber_eq_ok {x : JSNumber} {k : ℤ} (h : bigintOfNumber x = .ok k) :
    x = .finite k := by
  cases x with
  | finite q =>
    rw [bigintOfNumber] at h
    split at h
    next hden =>
      cases h
      exact congrArg JSNumber.finite ((Rat.den_eq_one_iff q).mp hden).symm
    next => cases h
  | nan => cases h
  | infinity => cases h
  | negInfinity => cases h

theorem bigintOfNumber_natCast (t : ℕ) : bigintOfNumber (.finite t) = .ok t := by
  rw [bigintOfNumber, if_pos (Rat.den_natCast t), Rat.num_natCast]

/-! ## Evaluation and verification -/

theorem bigintRem_modulus (a : ℤ) : bigintRem a vdfModulus = .ok (a.tmod vdfModulus) := by
  have hpos := one_lt_modulus
  rw [bigintRem, if_neg (by omega)]

/-- The loop of `evaluateVDF`, for the challenge `c`. -/
def squaringLoop (T : JSNumber) (c : ℤ) (fuel : ℕ) : Outcome JSError ℤ :=
  Outcome.loop (squaringRound vdfModulus T) fuel (.finite 0, c.tmod vdfModulus)

/-- An evaluation is its loop, and then the proof of the result. -/
theorem evaluateVDF_eq {challenge : JSString} {c : ℤ} (hc : bigintOfString challenge = .ok c)
    (T evalTime : JSNumber) (fuel : ℕ) :
    evaluateVDF sha256 fuel challenge T evalTime =
      (squaringLoop T c fuel).bind fun y => Outcome.ofExcept do
        let proof ← modPow (c.tmod vdfModulus)
          ((← bigintOfNumber T) - hashNumber sha256 (c.tmod vdfModulus) y) vdfModulus
        return ⟨challenge, js "0x" ++ toString16 y, js "0x" ++ toString16 proof, T, evalTime⟩ := by
  simp only [evaluateVDF, bigintOfString_modulus, hc]
  change (Outcome.ofExcept do
    return (vdfModulus, ← bigintRem c vdfModulus)).bind _ = _
  rw [bigintRem_modulus]
  change (Outcome.loop _ fuel (JSNumber.finite 0, c.tmod vdfModulus)).bind _ = _
  rw [squaringLoop]
  congr 1
  funext y
  rw [vdfHash_eq]
  rfl

/-- What an evaluation returns: the delay of `t` squarings on the challenge `c`. -/
def honestProof (sha256 : Bytes → Digest) (challenge : JSString) (c : ℤ) (t : ℕ)
    (evalTime : JSNumber) : VDFProof :=
  let x := c.tmod vdfModulus
  let y := squarings x t
  { challenge
    result := js "0x" ++ toString16 y
    proof := js "0x" ++ toString16 (x ^ (t - hashNumber sha256 x y).toNat % vdfModulus)
    iterations := .finite t
    verificationTimeMs := evalTime }

/-- **Which evaluations return**, and what: the count is exact and the hash, a number
of 256 bits, not above it. -/
theorem evaluateVDF_returns_iff {challenge : JSString} {T evalTime : JSNumber}
    {proof : VDFProof} :
    Returns (fun fuel => evaluateVDF sha256 fuel challenge T evalTime) proof ↔
      ∃ (c : ℤ) (t : ℕ), bigintOfString challenge = .ok c ∧ T = .finite t ∧ t ≤ 2 ^ 53 ∧
        hashNumber sha256 (c.tmod vdfModulus) (squarings (c.tmod vdfModulus) t) ≤ t ∧
        proof = honestProof sha256 challenge c t evalTime := by
  have hmodulus := one_lt_modulus
  constructor
  · rintro ⟨fuel, hrun⟩
    cases hc : bigintOfString challenge with
    | error e =>
      simp only [evaluateVDF, bigintOfString_modulus, hc] at hrun
      cases hrun
    | ok c =>
      simp only [evaluateVDF_eq hc] at hrun
      obtain ⟨y, hloop, hrest⟩ := Outcome.bind_eq_returns hrun
      obtain ⟨k, hk, hpow⟩ := bind_eq_ok (Outcome.ofExcept_eq_returns hrest)
      obtain rfl := bigintOfNumber_eq_ok hk
      obtain ⟨power, hpower, hproof⟩ := bind_eq_ok hpow
      have hhash := (bytesToBigInt_bounds
        (sha256 (textEncode (bigintString (c.tmod vdfModulus) ++ js ":" ++ bigintString y))).1).1
      have hexp : 0 ≤ k - hashNumber sha256 (c.tmod vdfModulus) y := by
        by_contra hneg
        rw [modPow, if_neg (by omega), if_pos (by omega)] at hpower
        cases hpower
      have hnonneg : 0 ≤ k := by
        rw [hashNumber] at hexp
        omega
      obtain ⟨t, rfl⟩ := Int.eq_ofNat_of_zero_le hnonneg
      rw [Int.cast_natCast] at hloop hproof
      obtain ⟨ht, rfl⟩ := of_loop_returns hloop
      rw [modPow_ok hexp hmodulus] at hpower
      cases hpower
      cases hproof
      exact ⟨c, t, rfl, by rw [Int.cast_natCast], ht, by omega, rfl⟩
  · rintro ⟨c, t, hc, rfl, ht, hhash, rfl⟩
    refine ⟨t + 1, ?_⟩
    simp only [evaluateVDF_eq hc, squaringLoop, loop_returns _ ht, Outcome.bind_returns,
      bigintOfNumber_natCast]
    change Outcome.ofExcept (modPow _ (t - _) _ >>= _) = _
    rw [modPow_ok (by omega) hmodulus]
    rfl

/-- **Which proofs are accepted.** The proof raised to the iterations is the result;
the challenge need only be a number. -/
theorem verifyVDF_iff {proof : VDFProof} :
    verifyVDF sha256 proof = true ↔
      ∃ (c π : ℤ) (t : ℕ), bigintOfString proof.challenge = .ok c ∧
        bigintOfString proof.proof = .ok π ∧ proof.iterations = .finite t ∧
        bigintOfString proof.result = .ok (π ^ t % vdfModulus) := by
  have hmodulus := one_lt_modulus
  have haccepts : verifyVDF sha256 proof = true ↔ checkVDF sha256 proof = .ok true := by
    unfold verifyVDF
    generalize checkVDF sha256 proof = checked
    cases checked with
    | error e => simp
    | ok accepted => simp
  rw [haccepts, checkVDF, bigintOfString_modulus]
  constructor
  · intro h
    obtain ⟨N, hN, h⟩ := bind_eq_ok h
    cases hN
    obtain ⟨c, hc, h⟩ := bind_eq_ok h
    obtain ⟨x, -, h⟩ := bind_eq_ok h
    obtain ⟨y, hy, h⟩ := bind_eq_ok h
    obtain ⟨π, hπ, h⟩ := bind_eq_ok h
    obtain ⟨r, -, h⟩ := bind_eq_ok h
    obtain ⟨k, hk, h⟩ := bind_eq_ok h
    obtain ⟨lhs, hlhs, h⟩ := bind_eq_ok h
    have hnonneg : 0 ≤ k := by
      by_contra hneg
      rw [modPow, if_neg (by omega), if_pos (by omega)] at hlhs
      cases hlhs
    obtain ⟨t, rfl⟩ := Int.eq_ofNat_of_zero_le hnonneg
    rw [modPow_ok hnonneg hmodulus] at hlhs
    cases hlhs
    have heq := decide_eq_true_eq.mp (Except.ok.inj h)
    refine ⟨c, π, t, hc, hπ, bigintOfNumber_eq_ok hk, ?_⟩
    rw [hy, ← heq]
    rfl
  · rintro ⟨c, π, t, hc, hπ, hT, hy⟩
    simp only [hc, hπ, hy, hT, bind, Except.bind, bigintRem_modulus, vdfHash_eq,
      bigintOfNumber_natCast, modPow_ok (Int.natCast_nonneg t) hmodulus, Int.toNat_natCast]
    simp only [pure, Except.pure, decide_true]

/-! ## Samples -/

/-- A hash function, from some of its values. -/
def tableSha256 (table : List (JSString × Digest)) (bytes : Bytes) : Digest :=
  ((table.find? fun e => textEncode e.1 = bytes).map Prod.snd).getD zeroDigest

/-- SHA-256 of three texts. -/
def sampleHashes : List (JSString × Digest) :=
  [(js "tx:system:0:3600",
    ⟨[0x72, 0x12, 0x83, 0xd7, 0x6c, 0xe2, 0x5d, 0xa0, 0x05, 0x32, 0x70, 0x32, 0x2c, 0x27,
      0x49, 0x0c, 0x75, 0x97, 0x9f, 0x0e, 0x45, 0x76, 0xd5, 0xa2, 0xb0, 0x75, 0x1c, 0x0b,
      0x35, 0xe3, 0x27, 0x91],
      rfl⟩),
    (js "0xabc:system:0:3600",
    ⟨[0x35, 0x34, 0x2c, 0x08, 0x6e, 0x87, 0x21, 0x6a, 0x0b, 0x70, 0x6a, 0x09, 0xe7, 0x21,
      0x8e, 0x92, 0x21, 0x1f, 0x93, 0x38, 0x82, 0x8b, 0x98, 0x13, 0x8c, 0xf5, 0x6a, 0x51,
      0x4a, 0xc6, 0x6e, 0x41],
      rfl⟩),
    (js "2:4",
    ⟨[0xfa, 0x70, 0xb3, 0x04, 0xf0, 0xb4, 0x68, 0x92, 0xfd, 0x67, 0xeb, 0x02, 0xf8, 0x62,
      0xd0, 0x7a, 0x6c, 0xe7, 0x4b, 0x35, 0xb5, 0x75, 0x84, 0xe2, 0xf0, 0x68, 0x8d, 0x08,
      0xf8, 0x97, 0xbc, 0xeb],
      rfl⟩)]

/-! ## The two together -/

/-- **Completeness.** An evaluation returns a proof that is accepted exactly when the
challenge is a number, the count of iterations is a natural number up to `2 ^ 53` that
the hash does not exceed, and the two exponents lead to the same power. -/
theorem evaluateVDF_complete_iff {challenge : JSString} {T evalTime : JSNumber} :
    (∃ proof, Returns (fun fuel => evaluateVDF sha256 fuel challenge T evalTime) proof ∧
        verifyVDF sha256 proof = true) ↔
      ∃ (c : ℤ) (t : ℕ), bigintOfString challenge = .ok c ∧ T = .finite t ∧ t ≤ 2 ^ 53 ∧
        hashNumber sha256 (c.tmod vdfModulus) (squarings (c.tmod vdfModulus) t) ≤ t ∧
        (c.tmod vdfModulus) ^ ((t - hashNumber sha256 (c.tmod vdfModulus)
            (squarings (c.tmod vdfModulus) t)).toNat * t) % vdfModulus =
          squarings (c.tmod vdfModulus) t := by
  have hmodulus := one_lt_modulus
  have hpower : ∀ (x : ℤ) (m : ℕ),
      bigintOfString (js "0x" ++ toString16 (x ^ m % vdfModulus)) = .ok (x ^ m % vdfModulus) :=
    fun x m => bigintOfString_toString16 (Int.emod_nonneg _ (by omega))
  have hexp : ∀ (x : ℤ) (m t : ℕ),
      (x ^ m % vdfModulus) ^ t % vdfModulus = x ^ (m * t) % vdfModulus := by
    intro x m t
    rw [pow_mul]
    exact (Int.mod_modEq _ _).pow t
  simp only [evaluateVDF_returns_iff]
  constructor
  · rintro ⟨proof, ⟨c, t, hc, hT, ht, hhash, rfl⟩, hverify⟩
    obtain ⟨c', π, t', -, hπ, hT', hresult⟩ := verifyVDF_iff.mp hverify
    simp only [honestProof, hpower, Except.ok.injEq, JSNumber.finite.injEq, Nat.cast_inj]
      at hπ hT' hresult
    subst hπ hT'
    refine ⟨c, t, hc, hT, ht, hhash, ?_⟩
    rw [hexp] at hresult
    by_cases hneg : squarings (c.tmod vdfModulus) t < 0
    · exact absurd hresult (bigintOfString_toString16_neg hneg)
    · rw [bigintOfString_toString16 (not_lt.mp hneg)] at hresult
      exact (Except.ok.inj hresult).symm
  · rintro ⟨c, t, hc, hT, ht, hhash, heq⟩
    refine ⟨_, ⟨c, t, hc, hT, ht, hhash, rfl⟩, verifyVDF_iff.mpr ?_⟩
    refine ⟨c, _, t, hc, hpower _ _, rfl, ?_⟩
    rw [hexp, heq]
    refine bigintOfString_toString16 ?_
    rw [← heq]
    exact Int.emod_nonneg _ (by omega)

/-- One squaring of two: the hash is a number far above one, and the evaluation throws. -/
theorem short_evaluation_fails :
    ¬ ∃ proof, Returns (fun fuel =>
        evaluateVDF (tableSha256 sampleHashes) fuel (js "0x2") (.finite 1) (.finite 0)) proof ∧
      verifyVDF (tableSha256 sampleHashes) proof = true := by
  rintro ⟨proof, hreturns, -⟩
  obtain ⟨c, t, hc, hT, -, hhash, -⟩ := evaluateVDF_returns_iff.mp hreturns
  have hmodulus : 4 < vdfModulus := lt_trans (by norm_num) hash_lt_modulus
  obtain rfl : 2 = c := by
    have htwo : bigintOfString (js "0x2") = .ok 2 := by decide
    exact Except.ok.inj (htwo.symm.trans hc)
  obtain rfl : t = 1 := by
    rw [JSNumber.finite.injEq] at hT
    exact_mod_cast hT.symm
  have hx : (2 : ℤ).tmod vdfModulus = 2 := by
    rw [Int.tmod_eq_emod_of_nonneg (by norm_num), Int.emod_eq_of_lt (by norm_num) (by omega)]
  have hy : squarings 2 1 = 4 := by
    rw [squarings_succ, squarings_zero, Int.emod_eq_of_lt (by norm_num) (by omega)]
    rfl
  rw [hx, hy] at hhash
  revert hhash
  decide

/-- The envelope proves its delay: that many iterations at least, and as the result the
challenge squared that often. -/
def Delayed (envelope : TimeLockEnvelope) : Prop :=
  (envelope.minimumDelaySeconds.mulRat 1000000).le envelope.notBeforeVdf.iterations = true ∧
    ∃ (c : ℤ) (t : ℕ), bigintOfString envelope.notBeforeVdf.challenge = .ok c ∧
      envelope.notBeforeVdf.iterations = .finite t ∧
      bigintOfString envelope.notBeforeVdf.result =
        .ok ((c % vdfModulus) ^ 2 ^ t % vdfModulus)

/-- **Soundness.** An accepted envelope proves its delay exactly when it names enough
iterations and its proof is a root of the right power of the challenge. -/
theorem verifyTimeLock_sound_iff {envelope : TimeLockEnvelope}
    (h : verifyTimeLock sha256 envelope = true) :
    Delayed envelope ↔
      (envelope.minimumDelaySeconds.mulRat 1000000).le envelope.notBeforeVdf.iterations = true ∧
        ∃ (c π : ℤ) (t : ℕ), bigintOfString envelope.notBeforeVdf.challenge = .ok c ∧
          bigintOfString envelope.notBeforeVdf.proof = .ok π ∧
          envelope.notBeforeVdf.iterations = .finite t ∧
          π ^ t ≡ c ^ 2 ^ t [ZMOD vdfModulus] := by
  have hverify : verifyVDF sha256 envelope.notBeforeVdf = true := by
    by_contra hrejected
    rw [verifyTimeLock, verifyTimeLockWith, if_pos (by simpa using hrejected)] at h
    cases h
  obtain ⟨c, π, t, hc, hπ, hT, hresult⟩ := verifyVDF_iff.mp hverify
  have hbase : (c % vdfModulus) ^ 2 ^ t % vdfModulus = c ^ 2 ^ t % vdfModulus :=
    (Int.mod_modEq c vdfModulus).pow _
  rw [Delayed]
  refine and_congr_right fun _ => ⟨?_, ?_⟩
  · rintro ⟨c', t', hc', hT', hresult'⟩
    obtain rfl := Except.ok.inj (hc.symm.trans hc')
    obtain rfl : t = t' := by simpa using hT.symm.trans hT'
    have heq := Except.ok.inj (hresult.symm.trans hresult')
    exact ⟨c, π, t, hc, hπ, hT, heq.trans hbase⟩
  · rintro ⟨c', π', t', hc', hπ', hT', hpower⟩
    obtain rfl := Except.ok.inj (hc.symm.trans hc')
    obtain rfl := Except.ok.inj (hπ.symm.trans hπ')
    obtain rfl : t = t' := by simpa using hT.symm.trans hT'
    have heq : π ^ t % vdfModulus = c ^ 2 ^ t % vdfModulus := hpower
    exact ⟨c, t, hc, hT, by rw [hresult, heq, hbase]⟩

/-- A time lock of an hour, with no iterations behind it. -/
def unworkedEnvelope : TimeLockEnvelope where
  payload := js "tx"
  notBeforeVdf := {
    challenge := generateVDFChallenge (tableSha256 sampleHashes) (js "tx") (js "system")
      (.finite 0) (.finite 3600)
    result := js "0x1"
    proof := js "0x0"
    iterations := .finite 0
    verificationTimeMs := .finite 0 }
  createdAt := .finite 0
  minimumDelaySeconds := .finite 3600

theorem verifyTimeLock_unworked :
    verifyTimeLock (tableSha256 sampleHashes) unworkedEnvelope = true := by
  have hmodulus := one_lt_modulus
  have hverify : verifyVDF (tableSha256 sampleHashes) unworkedEnvelope.notBeforeVdf = true := by
    refine verifyVDF_iff.mpr
      ⟨51596377922285191151129812145178934979561057355296059019268437353252763412369, 0, 0,
      by with_unfolding_all decide, by with_unfolding_all decide, rfl, ?_⟩
    rw [pow_zero, Int.emod_eq_of_lt (by norm_num) hmodulus]
    decide
  have hchallenge : unworkedEnvelope.notBeforeVdf.challenge =
      generateVDFChallenge (tableSha256 sampleHashes) unworkedEnvelope.payload (js "system")
        unworkedEnvelope.createdAt unworkedEnvelope.minimumDelaySeconds := rfl
  rw [verifyTimeLock, verifyTimeLockWith, hverify]
  simp [hchallenge]

theorem verifyTimeLock_sound_iff_unworked :
    Delayed unworkedEnvelope ↔
      (unworkedEnvelope.minimumDelaySeconds.mulRat 1000000).le
          unworkedEnvelope.notBeforeVdf.iterations = true ∧
        ∃ (c π : ℤ) (t : ℕ), bigintOfString unworkedEnvelope.notBeforeVdf.challenge = .ok c ∧
          bigintOfString unworkedEnvelope.notBeforeVdf.proof = .ok π ∧
          unworkedEnvelope.notBeforeVdf.iterations = .finite t ∧
          π ^ t ≡ c ^ 2 ^ t [ZMOD vdfModulus] :=
  verifyTimeLock_sound_iff verifyTimeLock_unworked

/-- The envelope is accepted and has no delay. -/
theorem unworked_envelope_accepted :
    verifyTimeLock (tableSha256 sampleHashes) unworkedEnvelope = true ∧
      ¬ Delayed unworkedEnvelope := by
  refine ⟨verifyTimeLock_unworked, ?_⟩
  rintro ⟨hiterations, -⟩
  revert hiterations
  with_unfolding_all decide

/-! ## Envelopes with an ideal delay function -/

/-- Every proof that is returned is accepted, and carries its challenge. -/
structure IdealVDF (evaluate : JSString → JSNumber → Outcome JSError VDFProof)
    (verify : VDFProof → Bool) : Prop where
  accepted : ∀ {challenge T proof}, evaluate challenge T = .returns proof → verify proof = true
  challenge_eq : ∀ {challenge T proof}, evaluate challenge T = .returns proof →
    proof.challenge = challenge

/-- **Envelopes.** Of an envelope made for an approval and an approver, the challenge is
rebuilt from the payload and `system`: it is accepted exactly when the two read the same. -/
theorem envelope_accepted_iff {evaluate : JSString → JSNumber → Outcome JSError VDFProof}
    {verify : VDFProof → Bool} (hideal : IdealVDF evaluate verify)
    {approvalId approverId payload : JSString} {minimumDelaySeconds : JSNumber} {now : ℤ}
    {envelope : TimeLockEnvelope}
    (hcreate : createTimeLockedApproval sha256 evaluate approvalId approverId payload
      minimumDelaySeconds now = .returns envelope)
    (hhash : sha256 (textEncode (challengeText approvalId approverId (.ofInt now)
          minimumDelaySeconds)) =
        sha256 (textEncode (challengeText payload (js "system") (.ofInt now)
          minimumDelaySeconds)) →
      textEncode (challengeText approvalId approverId (.ofInt now) minimumDelaySeconds) =
        textEncode (challengeText payload (js "system") (.ofInt now) minimumDelaySeconds)) :
    verifyTimeLockWith sha256 verify envelope = true ↔
      textEncode (approvalId ++ js ":" ++ approverId) =
        textEncode (payload ++ js ":" ++ js "system") := by
  rw [createTimeLockedApproval] at hcreate
  obtain ⟨proof, hevaluate, hreturn⟩ := Outcome.bind_eq_returns hcreate
  obtain rfl := Outcome.returns.inj hreturn
  rw [verifyTimeLockWith]
  simp only [hideal.accepted hevaluate, hideal.challenge_eq hevaluate, Bool.not_true,
    Bool.false_eq_true, if_false, ite_eq_right_iff, imp_false, not_not, ne_eq]
  have hsplit : ∀ approval approver : JSString,
      textEncode (challengeText approval approver (.ofInt now) minimumDelaySeconds) =
        textEncode (approval ++ js ":" ++ approver) ++
          textEncode (js ":" ++ (numberString (.ofInt now) ++ js ":" ++
            numberString minimumDelaySeconds)) := by
    intro approval approver
    have happend := textEncode_append (u := 58) (by decide) (approval ++ js ":" ++ approver)
      (numberString (.ofInt now) ++ js ":" ++ numberString minimumDelaySeconds)
    rw [challengeText]
    simpa [show js ":" = [58] from rfl] using happend
  have hdigits : generateVDFChallenge sha256 approvalId approverId (.ofInt now)
        minimumDelaySeconds =
      generateVDFChallenge sha256 payload (js "system") (.ofInt now) minimumDelaySeconds ↔
      sha256 (textEncode (challengeText approvalId approverId (.ofInt now) minimumDelaySeconds)) =
        sha256 (textEncode (challengeText payload (js "system") (.ofInt now)
          minimumDelaySeconds)) := by
    rw [generateVDFChallenge, generateVDFChallenge, List.append_cancel_left_eq,
      bytesToHex_injective.eq_iff, ← Subtype.ext_iff]
  rw [hdigits]
  constructor
  · intro hsame
    have htexts := hhash hsame
    rw [hsplit, hsplit] at htexts
    exact List.append_cancel_right htexts
  · intro hnames
    rw [hsplit, hsplit, hnames]

/-- An ideal delay function: it does no work, and everything is accepted. -/
def echoVDF (challenge : JSString) (T : JSNumber) : Outcome JSError VDFProof :=
  .returns ⟨challenge, [], [], T, .finite 0⟩

theorem idealVDF_echo : IdealVDF echoVDF fun _ => true where
  accepted _ := rfl
  challenge_eq h := by
    rw [← Outcome.returns.inj h]

theorem envelope_accepted_iff_system :
    ∃ envelope, createTimeLockedApproval (tableSha256 sampleHashes) echoVDF (js "tx")
        (js "system") (js "tx") (.finite 3600) 0 = .returns envelope ∧
      (verifyTimeLockWith (tableSha256 sampleHashes) (fun _ => true) envelope = true ↔
        textEncode (js "tx" ++ js ":" ++ js "system") =
          textEncode (js "tx" ++ js ":" ++ js "system")) :=
  ⟨_, rfl, envelope_accepted_iff idealVDF_echo rfl fun _ => rfl⟩

/-- The id of an approval is not the hash of its transaction: the envelope made for it is
rejected. -/
theorem approval_envelope_rejected :
    IdealVDF echoVDF (fun _ => true) ∧
      ∃ envelope, createTimeLockedApproval (tableSha256 sampleHashes) echoVDF (js "0xabc")
          (js "system") (js "tx") (.finite 3600) 0 = .returns envelope ∧
        verifyTimeLockWith (tableSha256 sampleHashes) (fun _ => true) envelope = false :=
  ⟨idealVDF_echo, _, rfl, by with_unfolding_all decide⟩

end BioFire.Governance
