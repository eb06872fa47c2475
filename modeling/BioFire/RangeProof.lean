import BioFire.IdentifiableAbort

/-!
# Range proofs (`src/lib/crypto/mta_zkp.ts`)

A proof carries the challenge of its commitment and its context. The response is checked to be a
residue, and against nothing else.

* `eq_of_challengeText`, `commitment_eq_of_challengeText`: the hashed text determines the context,
  and the commitment;
* `rangeProof_complete_iff`: a generated proof is accepted in its own context only;
* `rangeProof_integrity`: what an accepted proof with a challenge is bound to.
-/

namespace BioFire

/-- The text that is hashed to the challenge. -/
def challengeText (publicKey : PaillierPublicKey) (ciphertext : ℤ) (extraData : JSString) :
    JSString :=
  toString16 publicKey.n ++ js ":" ++ toString16 publicKey.g ++ js ":" ++ toString16 ciphertext ++
    js ":" ++ extraData

section

variable (sha256 : Bytes → Digest) (q : ℤ)

/-- The reduced hash does not collide on two challenges under one key. -/
def NoChallengeCollision (publicKey : PaillierPublicKey) (ciphertext ciphertext' : ℤ)
    (extraData extraData' : JSString) : Prop :=
  generateChallenge sha256 q publicKey ciphertext extraData =
      generateChallenge sha256 q publicKey ciphertext' extraData' →
    textEncode (challengeText publicKey ciphertext extraData) =
      textEncode (challengeText publicKey ciphertext' extraData')

/-- An accepted proof carries its challenge, and is not accepted with another response or another
commitment. -/
def BindsProof (publicKey : PaillierPublicKey) (extraData : JSString) (proof : MtAProof) : Prop :=
  (∃ commitment, bigintOfString proof.commitment = .ok commitment ∧
      bigintOfString proof.challenge =
        .ok (generateChallenge sha256 q publicKey commitment extraData)) ∧
    (∀ z, z ≠ proof.z →
      verifyMtARangeProof sha256 q publicKey { proof with z := z } extraData = false) ∧
    ∀ commitment, commitment ≠ proof.commitment →
      verifyMtARangeProof sha256 q publicKey { proof with commitment := commitment } extraData =
        false

end

/-! ## The hashed text -/

theorem toString16_ascii (n : ℤ) : ∀ c ∈ toString16 n, c < 128 := by
  have hdigits : ∀ c ∈ ((Nat.digits 16 n.natAbs).map hexDigit).reverse, c < 128 := by
    intro c hc
    obtain ⟨d, hd, rfl⟩ := List.mem_map.mp (List.mem_reverse.mp hc)
    exact hexDigit_ascii (Nat.digits_lt_base (by decide) hd)
  rw [toString16]
  intro c hc
  split at hc
  · obtain rfl := List.mem_singleton.mp hc
    decide
  · split at hc
    · rcases List.mem_cons.mp hc with rfl | hc
      · decide
      · exact hdigits c hc
    · exact hdigits c hc

theorem textEncode_challengeText (publicKey : PaillierPublicKey) (ciphertext : ℤ)
    (extraData : JSString) :
    textEncode (challengeText publicKey ciphertext extraData) =
      textEncode (toString16 publicKey.n ++ js ":" ++ toString16 publicKey.g ++ js ":" ++
        toString16 ciphertext) ++ textEncode (58 :: extraData) := by
  rw [challengeText, List.append_assoc]
  exact textEncode_append rfl _ extraData

/-- **The hashed text determines a well-formed context.** -/
theorem eq_of_challengeText {publicKey : PaillierPublicKey} {ciphertext : ℤ}
    {extraData extraData' : JSString} (h : WellFormed extraData) (h' : WellFormed extraData')
    (heq : textEncode (challengeText publicKey ciphertext extraData) =
      textEncode (challengeText publicKey ciphertext extraData')) : extraData = extraData' := by
  rw [textEncode_challengeText, textEncode_challengeText] at heq
  have hcolon : isSurrogate 58 = false := by decide
  exact (List.cons.inj ((WellFormed.unit hcolon h).eq_of_textEncode (.unit hcolon h')
    (List.append_cancel_left heq))).2

/-- **The hashed text determines the commitment.** -/
theorem commitment_eq_of_challengeText {publicKey : PaillierPublicKey} {ciphertext ciphertext' : ℤ}
    {extraData : JSString} (h : 0 ≤ ciphertext) (h' : 0 ≤ ciphertext')
    (heq : textEncode (challengeText publicKey ciphertext extraData) =
      textEncode (challengeText publicKey ciphertext' extraData)) : ciphertext = ciphertext' := by
  rw [textEncode_challengeText, textEncode_challengeText] at heq
  have hcolon : ∀ c ∈ js ":", c < 128 := ascii_of_all (by decide)
  have hascii : ∀ k : ℤ, ∀ c ∈ toString16 publicKey.n ++ js ":" ++ toString16 publicKey.g ++
      js ":" ++ toString16 k, c < 128 := by
    intro k
    simp only [List.forall_mem_append]
    exact ⟨⟨⟨⟨toString16_ascii _, hcolon⟩, toString16_ascii _⟩, hcolon⟩, toString16_ascii _⟩
  have htext := textEncode_ascii_inj (hascii ciphertext) (hascii ciphertext')
    (List.append_cancel_right heq)
  have hread := bigintOfString_toString16 h
  rw [List.append_cancel_left htext, bigintOfString_toString16 h'] at hread
  exact (Except.ok.inj hread).symm

/-! ## Generated proofs -/

section

variable {sha256 : Bytes → Digest} {q : ℤ} {n : ℕ} {publicKey : PaillierPublicKey}

theorem generateMtARangeProof_eq_ok {secretShare : ℤ} {extraData : JSString}
    {random : ProofRandomness q publicKey.n} {proof : MtAProof}
    (h : generateMtARangeProof sha256 q publicKey secretShare extraData random = .ok proof) :
    ∃ ciphertext, encryptPaillier publicKey random.alpha.1 random.draws = .ok ciphertext ∧
      proof.commitment = js "0x" ++ toString16 ciphertext ∧
      proof.z = js "0x" ++ toString16 (modN q (random.alpha.1 +
        generateChallenge sha256 q publicKey ciphertext extraData * secretShare)) ∧
      proof.challenge =
        js "0x" ++ toString16 (generateChallenge sha256 q publicKey ciphertext extraData) := by
  unfold generateMtARangeProof at h
  obtain ⟨ciphertext, hciphertext, h⟩ := bind_eq_ok h
  cases h
  exact ⟨ciphertext, hciphertext, rfl, rfl, rfl⟩

/-- The commitment of a generated proof is a ciphertext in range. -/
theorem encryptPaillier_mask_range (hkey : publicKey = ⟨n, n + 1, n * n⟩) (hqn : q < n)
    (random : ProofRandomness q publicKey.n) {ciphertext : ℤ}
    (h : encryptPaillier publicKey random.alpha.1 random.draws = .ok ciphertext) :
    0 < ciphertext ∧ ciphertext < publicKey.nSquared := by
  have halpha₁ := random.alpha.2.1
  have halpha := random.alpha.2.2
  have hn : 1 < n := by omega
  have hfinds : Finds n random.draws.draw := by
    by_contra hnot
    obtain ⟨e, he⟩ := encryptPaillier_error random.alpha.1 (by rw [hkey]) hnot
    cases he.symm.trans h
  obtain ⟨c, hc, hc₀, hencrypts⟩ := encryptPaillier_ok (m := random.alpha.1.toNat) hn hkey (by omega)
    hfinds
  rw [Int.toNat_of_nonneg (by omega)] at hc
  obtain rfl := Except.ok.inj (hc.symm.trans h)
  have hlt := encryptPaillier_lt (by rw [hkey]) (by omega) h
  have hpos := hencrypts.emod_pos hn
  rw [Int.emod_eq_of_lt hc₀ hlt] at hpos
  rw [hkey]
  exact ⟨hpos, hlt⟩

/-- **Completeness and context.** A proof is generated when its encryption finds a random number,
and is accepted exactly in the context that it was generated for. -/
theorem rangeProof_complete_iff (sha256 : Bytes → Digest)
    (hkey : publicKey = ⟨n, n + 1, n * n⟩) (hqn : q < n) (secretShare : ℤ)
    (random : ProofRandomness q publicKey.n) {extraData extraData' : JSString}
    (hwell : WellFormed extraData) (hwell' : WellFormed extraData')
    (hcollision : ∀ ciphertext,
      encryptPaillier publicKey random.alpha.1 random.draws = .ok ciphertext →
      NoChallengeCollision sha256 q publicKey ciphertext ciphertext extraData extraData') :
    ((∃ proof, generateMtARangeProof sha256 q publicKey secretShare extraData random = .ok proof) ↔
        Finds n random.draws.draw) ∧
      ∀ proof,
        generateMtARangeProof sha256 q publicKey secretShare extraData random = .ok proof →
        (verifyMtARangeProof sha256 q publicKey proof extraData' = true ↔ extraData' = extraData) := by
  have halpha₁ := random.alpha.2.1
  have halpha := random.alpha.2.2
  constructor
  · constructor
    · rintro ⟨proof, hproof⟩
      by_contra hnot
      obtain ⟨e, he⟩ := generateMtARangeProof_error sha256 (by rw [hkey]) secretShare extraData
        random hnot
      cases he.symm.trans hproof
    · exact generateMtARangeProof_ok sha256 (by omega) hkey hqn.le secretShare extraData random
  · intro proof hproof
    obtain ⟨ciphertext, hciphertext, hcommitment, hz, hchallenge⟩ :=
      generateMtARangeProof_eq_ok hproof
    obtain ⟨hpos, hlt⟩ := encryptPaillier_mask_range hkey hqn random hciphertext
    have hread : bigintOfString proof.commitment = .ok ciphertext := by
      rw [hcommitment, bigintOfString_toString16 hpos.le]
    have hchallengeRead : bigintOfString proof.challenge =
        .ok (generateChallenge sha256 q publicKey ciphertext extraData) := by
      rw [hchallenge, bigintOfString_toString16 (generateChallenge_nonneg publicKey _ _)]
    have hne : proof.challenge ≠ [] := by
      rw [hchallenge]
      exact List.append_ne_nil_of_left_ne_nil (by decide) _
    constructor
    · intro hverify
      obtain ⟨ciphertext', hread', hsame⟩ := challenge_of_verify hverify hne
      obtain rfl := Except.ok.inj (hread.symm.trans hread')
      rw [hchallengeRead] at hsame
      exact (eq_of_challengeText hwell hwell'
        (hcollision ciphertext hciphertext (Except.ok.inj hsame))).symm
    · rintro rfl
      have hq : 0 < q := by omega
      rw [verifyMtARangeProof_iff, hcommitment, hz]
      refine ⟨rfl, rfl, ⟨_, bigintOfString_toString16 (by
        rw [modN_eq hq]
        exact Int.emod_nonneg _ hq.ne'), ?_⟩, ciphertext, by rw [← hcommitment, hread], hpos, hlt,
        Or.inr hchallengeRead⟩
      rw [modN_eq hq]
      exact ⟨Int.emod_nonneg _ hq.ne', Int.emod_lt_of_pos _ hq⟩

/-- **Integrity.** An accepted proof with a challenge carries the one of its commitment and
context, and is not accepted with the text of another commitment; any residue is accepted as its
response. -/
theorem rangeProof_integrity (sha256 : Bytes → Digest) {extraData : JSString} {proof : MtAProof}
    (h : verifyMtARangeProof sha256 q publicKey proof extraData = true)
    (hchallenge : proof.challenge ≠ []) :
    ∃ commitment, bigintOfString proof.commitment = .ok commitment ∧
      bigintOfString proof.challenge =
        .ok (generateChallenge sha256 q publicKey commitment extraData) ∧
      (∀ text, bigintOfString text ≠ .ok commitment →
        (∀ commitment', bigintOfString text = .ok commitment' →
          NoChallengeCollision sha256 q publicKey commitment commitment' extraData extraData) →
        verifyMtARangeProof sha256 q publicKey { proof with commitment := text } extraData = false) ∧
      ∀ text, verifyMtARangeProof sha256 q publicKey { proof with z := text } extraData = true ↔
        (js "0x").isPrefixOf text = true ∧ ∃ z, bigintOfString text = .ok z ∧ 0 ≤ z ∧ z < q := by
  obtain ⟨hmark, -, -, commitment, hread, hpos, hlt, hparsed⟩ := verifyMtARangeProof_iff.mp h
  have hparsed := hparsed.resolve_left hchallenge
  refine ⟨commitment, hread, hparsed, fun text hother hcollision => ?_, fun text => ?_⟩
  · by_contra haccepted
    rw [Bool.not_eq_false] at haccepted
    obtain ⟨-, -, -, commitment', hread', hpos', -, hparsed'⟩ :=
      verifyMtARangeProof_iff.mp haccepted
    have hsame := hparsed.symm.trans (hparsed'.resolve_left hchallenge)
    have heq := commitment_eq_of_challengeText hpos.le hpos'.le
      (hcollision commitment' hread' (Except.ok.inj hsame))
    exact hother (heq ▸ hread')
  · rw [verifyMtARangeProof_iff]
    constructor
    · rintro ⟨-, hz, hrange, -⟩
      exact ⟨hz, hrange⟩
    · rintro ⟨hz, hrange⟩
      exact ⟨hmark, hz, hrange, commitment, hread, hpos, hlt, Or.inr hparsed⟩

end

/-! ## Two proofs for the modulus 77 -/

def smallKey : PaillierPublicKey := ⟨77, 78, 5929⟩

/-- SHA-256 of `4d:4e:1439:round1`. -/
def firstContextDigest : Digest :=
  ⟨[0x51, 0xD0, 0xEE, 0x5E, 0x4B, 0x91, 0xB5, 0x6C, 0x1C, 0x0B, 0x25, 0x1C,
    0xC0, 0x4B, 0x06, 0x5F, 0x2A, 0x2F, 0x6A, 0x7B, 0xD1, 0xA6, 0xCD, 0x5C,
    0x74, 0xC3, 0x2B, 0x56, 0x7F, 0xBF, 0x61, 0x95], rfl⟩

/-- SHA-256 of `4d:4e:1439:round2`. -/
def secondContextDigest : Digest :=
  ⟨[0x40, 0x21, 0x24, 0x6A, 0xE5, 0x7E, 0xBF, 0x6A, 0x12, 0x28, 0x06, 0x89,
    0xCC, 0x07, 0x88, 0x49, 0x76, 0x36, 0x09, 0x2B, 0x78, 0xE0, 0xD5, 0x0D,
    0x62, 0x63, 0x9D, 0x73, 0x74, 0x99, 0x0C, 0x93], rfl⟩

def contextsSha256 (bytes : Bytes) : Digest :=
  if bytes = textEncode (js "4d:4e:1439:round1") then firstContextDigest else secondContextDigest

/-- The mask 1, encrypted with the random number 2. -/
def unitRandomness : ProofRandomness 31 smallKey.n := ⟨⟨1, by decide⟩, zeroDraws (by decide)⟩

theorem rangeProof_complete_iff_round :
    ((∃ proof, generateMtARangeProof contextsSha256 31 smallKey 9 (js "round1") unitRandomness =
        .ok proof) ↔ Finds 77 unitRandomness.draws.draw) ∧
      ∀ proof, generateMtARangeProof contextsSha256 31 smallKey 9 (js "round1") unitRandomness =
          .ok proof →
        (verifyMtARangeProof contextsSha256 31 smallKey proof (js "round2") = true ↔
          js "round2" = js "round1") := by
  have hciphertext : encryptPaillier smallKey unitRandomness.alpha.1 unitRandomness.draws =
      .ok 0x1439 := by with_unfolding_all decide
  have hdiffer : generateChallenge contextsSha256 31 smallKey 0x1439 (js "round1") ≠
      generateChallenge contextsSha256 31 smallKey 0x1439 (js "round2") := by decide
  refine rangeProof_complete_iff contextsSha256 rfl (by decide) 9 unitRandomness
    (wellFormed_js (by decide)) (wellFormed_js (by decide)) ?_
  intro ciphertext h
  obtain rfl := Except.ok.inj (hciphertext.symm.trans h)
  exact fun hsame => absurd hsame hdiffer

/-- SHA-256 of `4d:4e:2:round1`, which is below the order. -/
def doubleDigest : Digest :=
  ⟨[0x20, 0x2E, 0x21, 0xFA, 0x39, 0x8B, 0x02, 0x48, 0x05, 0xF9, 0xE2, 0x50,
    0xEA, 0x0D, 0x8B, 0x6E, 0x6A, 0xC7, 0x5F, 0xEE, 0x98, 0x46, 0x39, 0x55,
    0x66, 0x5C, 0x8C, 0xD9, 0x5A, 0x0A, 0xE4, 0xF8], rfl⟩

/-- The commitment 2 and its challenge, with a response. -/
def proofWith (z : JSString) : MtAProof where
  commitment := js "0x2"
  z := z
  w := []
  challenge := js "0x202e21fa398b024805f9e250ea0d8b6e6ac75fee98463955665c8cd95a0ae4f8"
  isValid := true

theorem proofWith_accepted :
    verifyMtARangeProof (fun _ => doubleDigest) secp256k1Order smallKey (proofWith (js "0x5"))
        (js "round1") = true ∧
      verifyMtARangeProof (fun _ => doubleDigest) secp256k1Order smallKey (proofWith (js "0x6"))
        (js "round1") = true := by
  decide

theorem rangeProof_integrity_double :
    ∃ commitment, bigintOfString (js "0x2") = .ok commitment ∧
      bigintOfString (proofWith (js "0x5")).challenge = .ok (generateChallenge (fun _ => doubleDigest)
        secp256k1Order smallKey commitment (js "round1")) ∧
      (∀ text, bigintOfString text ≠ .ok commitment →
        (∀ commitment', bigintOfString text = .ok commitment' →
          NoChallengeCollision (fun _ => doubleDigest) secp256k1Order smallKey commitment commitment'
            (js "round1") (js "round1")) →
        verifyMtARangeProof (fun _ => doubleDigest) secp256k1Order smallKey
          { proofWith (js "0x5") with commitment := text } (js "round1") = false) ∧
      ∀ text, verifyMtARangeProof (fun _ => doubleDigest) secp256k1Order smallKey
          { proofWith (js "0x5") with z := text } (js "round1") = true ↔
        (js "0x").isPrefixOf text = true ∧
          ∃ z, bigintOfString text = .ok z ∧ 0 ≤ z ∧ z < secp256k1Order :=
  rangeProof_integrity (fun _ => doubleDigest) proofWith_accepted.1 (by decide)

/-- The responses 5 and 6 are both accepted. -/
theorem response_replaced :
    verifyMtARangeProof (fun _ => doubleDigest) secp256k1Order smallKey (proofWith (js "0x5"))
        (js "round1") = true ∧
      ¬BindsProof (fun _ => doubleDigest) secp256k1Order smallKey (js "round1")
        (proofWith (js "0x5")) := by
  obtain ⟨hfive, hsix⟩ := proofWith_accepted
  refine ⟨hfive, ?_⟩
  rintro ⟨-, hresponse, -⟩
  exact absurd (hresponse (js "0x6") (by decide)) (by rw [Bool.not_eq_false]; exact hsix)

end BioFire
