import BioFire.BigIntText
import BioFire.InsertionMap
import BioFire.Mta
import BioFire.TextEncoding

/-!
# Identifiable abort (`src/lib/crypto/mta_zkp.ts`)

The audit walks through the participants and stops at the first one whose commitment or proof
is missing, or whose proof is not accepted. A participant without a registered key is passed
over, and the proofs are verified in another context than the one they were made in.

* `auditNode_cases`: which participants are accused, and which are passed over;
* `audit_sound_iff`: when a clean audit means that everyone was checked;
* `honest_audit_clean_iff`: which lists of honest participants have a clean audit.
-/

namespace BioFire

structure AbortReport where
  aborted : Bool
  faultyNodeId : Option JSString
  reason : Option JSString
  evidence : Option JSString
  deriving DecidableEq

section

variable (sha256 : Bytes → Digest) (q : ℤ)

/-- What is checked of a proof; `BigInt` throws where a text is no number. -/
def checkMtARangeProof (paillierPublicKey : PaillierPublicKey) (proof : MtAProof)
    (extraData : JSString) : Except JSError Bool :=
  if !(js "0x").isPrefixOf proof.commitment || !(js "0x").isPrefixOf proof.z then .ok false
  else do
    let z ← bigintOfString proof.z
    let commitment ← bigintOfString proof.commitment
    if z < 0 ∨ z ≥ q then return false
    else if commitment ≤ 0 ∨ commitment ≥ paillierPublicKey.nSquared then return false
    else
      let expectedChallenge := generateChallenge sha256 q paillierPublicKey commitment extraData
      -- an empty challenge is not compared
      if proof.challenge = [] then return true
      else return decide ((← bigintOfString proof.challenge) = expectedChallenge)

def verifyMtARangeProof (paillierPublicKey : PaillierPublicKey) (proof : MtAProof)
    (extraData : JSString) : Bool :=
  (checkMtARangeProof sha256 q paillierPublicKey proof extraData).toOption.getD false

/-- What the audit has of the participants. -/
structure AuditInput where
  commitments : InsertionMap JSString JSString
  mtaProofs : InsertionMap JSString MtAProof
  paillierPublicKeys : InsertionMap JSString PaillierPublicKey

variable (input : AuditInput)

/-- The report that names the participant, if it is accused. -/
def auditNode (nodeId : JSString) : Option AbortReport :=
  if !input.commitments.has nodeId then
    some ⟨true, some nodeId,
      some (js "Node " ++ nodeId ++ js " failed to supply round 1 presignature commitment"),
      some (js "MISSING_COMMITMENT")⟩
  else
    match input.mtaProofs.get nodeId, input.paillierPublicKeys.get nodeId with
    | none, _ =>
      some ⟨true, some nodeId, some (js "Node " ++ nodeId ++ js " provided no MtA proof"),
        some (js "MISSING_PROOF")⟩
    | some _, none => none
    | some proof, some pubKey =>
      if !verifyMtARangeProof sha256 q pubKey proof [] then
        some ⟨true, some nodeId,
          some (js "Node " ++ nodeId ++ js " provided invalid MtA Paillier range proof"),
          some (js "INVALID_PROOF: commitment=" ++ proof.commitment)⟩
      else none

def auditIdentifiableAbort : List JSString → AbortReport
  | [] => ⟨false, none, none, none⟩
  | nodeId :: participatingNodes =>
    match auditNode sha256 q input nodeId with
    | some report => report
    | none => auditIdentifiableAbort participatingNodes

/-! ## Who is accused -/

/-- The participant has a commitment, and a proof that its registered key accepts. -/
def Checked (nodeId : JSString) : Prop :=
  input.commitments.has nodeId = true ∧ ∃ proof pubKey,
    input.mtaProofs.get nodeId = some proof ∧
    input.paillierPublicKeys.get nodeId = some pubKey ∧
    verifyMtARangeProof sha256 q pubKey proof [] = true

/-- The participant has a commitment and a proof, and no registered key. -/
def Unregistered (nodeId : JSString) : Prop :=
  input.commitments.has nodeId = true ∧ (input.mtaProofs.get nodeId).isSome ∧
    input.paillierPublicKeys.get nodeId = none

/-- The participant lacks a commitment or a proof, or its registered key does not accept it. -/
def Rejected (nodeId : JSString) : Prop :=
  input.commitments.has nodeId = false ∨ input.mtaProofs.get nodeId = none ∨
    ∃ proof pubKey, input.mtaProofs.get nodeId = some proof ∧
      input.paillierPublicKeys.get nodeId = some pubKey ∧
      verifyMtARangeProof sha256 q pubKey proof [] = false

/-- When the audit is clean, everyone was checked; else it names the first one who fails. -/
def AuditSound (participatingNodes : List JSString) : Prop :=
  let report := auditIdentifiableAbort sha256 q input participatingNodes
  (report.aborted = false → ∀ nodeId ∈ participatingNodes, Checked sha256 q input nodeId) ∧
  (report.aborted = true → ∃ before nodeId after,
    participatingNodes = before ++ nodeId :: after ∧ report.faultyNodeId = some nodeId ∧
    ¬ Checked sha256 q input nodeId ∧ ∀ earlier ∈ before, Checked sha256 q input earlier)

/-- Everyone without a registered key comes after someone who is rejected. -/
def UnregisteredAfterRejected (participatingNodes : List JSString) : Prop :=
  ∀ before nodeId after, participatingNodes = before ++ nodeId :: after →
    Unregistered input nodeId → ∃ earlier ∈ before, Rejected sha256 q input earlier

variable {sha256 q input}

theorem rejected_iff {nodeId : JSString} : Rejected sha256 q input nodeId ↔
    ¬ Checked sha256 q input nodeId ∧ ¬ Unregistered input nodeId := by
  unfold Rejected Checked Unregistered
  cases input.commitments.has nodeId with
  | false => simp
  | true =>
    cases input.mtaProofs.get nodeId with
    | none => simp
    | some proof => cases input.paillierPublicKeys.get nodeId <;> simp

theorem Checked.not_unregistered {nodeId : JSString} (h : Checked sha256 q input nodeId) :
    ¬ Unregistered input nodeId := by
  obtain ⟨-, proof, pubKey, -, hkey, -⟩ := h
  rintro ⟨-, -, hnone⟩
  rw [hkey] at hnone
  cases hnone

variable (sha256 q input) in
/-- The participants that the audit passes over, and those that it accuses. -/
theorem auditNode_cases (nodeId : JSString) :
    ((Checked sha256 q input nodeId ∨ Unregistered input nodeId) ∧
        auditNode sha256 q input nodeId = none) ∨
      (Rejected sha256 q input nodeId ∧ ∃ report, auditNode sha256 q input nodeId = some report ∧
        report.aborted = true ∧ report.faultyNodeId = some nodeId) := by
  unfold auditNode Rejected Checked Unregistered
  cases input.commitments.has nodeId with
  | false => simp
  | true =>
    cases input.mtaProofs.get nodeId with
    | none => simp
    | some proof =>
      cases input.paillierPublicKeys.get nodeId with
      | none => simp
      | some pubKey => cases hverify : verifyMtARangeProof sha256 q pubKey proof [] <;> simp [hverify]

theorem audit_of_rejected {nodeId : JSString} (h : Rejected sha256 q input nodeId)
    (rest : List JSString) :
    (auditIdentifiableAbort sha256 q input (nodeId :: rest)).aborted = true ∧
      (auditIdentifiableAbort sha256 q input (nodeId :: rest)).faultyNodeId = some nodeId := by
  rcases auditNode_cases sha256 q input nodeId with ⟨hpassed, -⟩ | ⟨-, report, hreport, hnamed⟩
  · obtain ⟨hchecked, hunregistered⟩ := rejected_iff.mp h
    exact absurd hpassed (not_or.mpr ⟨hchecked, hunregistered⟩)
  · rw [auditIdentifiableAbort, hreport]
    exact hnamed

theorem audit_of_passed {nodeId : JSString}
    (h : Checked sha256 q input nodeId ∨ Unregistered input nodeId) (rest : List JSString) :
    auditIdentifiableAbort sha256 q input (nodeId :: rest) =
      auditIdentifiableAbort sha256 q input rest := by
  rcases auditNode_cases sha256 q input nodeId with ⟨-, hnone⟩ | ⟨hrejected, -⟩
  · rw [auditIdentifiableAbort, hnone]
  · obtain ⟨hchecked, hunregistered⟩ := rejected_iff.mp hrejected
    exact absurd h (not_or.mpr ⟨hchecked, hunregistered⟩)

theorem rejected_of_faultyNodeId {participatingNodes : List JSString} {nodeId : JSString}
    (h : (auditIdentifiableAbort sha256 q input participatingNodes).faultyNodeId = some nodeId) :
    Rejected sha256 q input nodeId := by
  induction participatingNodes with
  | nil => cases h
  | cons first rest ih =>
    rcases auditNode_cases sha256 q input first with ⟨hpassed, -⟩ | ⟨hrejected, -⟩
    · rw [audit_of_passed hpassed] at h
      exact ih h
    · rw [(audit_of_rejected hrejected rest).2] at h
      rwa [← Option.some.inj h]

theorem auditSound_of_rejected {nodeId : JSString} (h : Rejected sha256 q input nodeId)
    (rest : List JSString) : AuditSound sha256 q input (nodeId :: rest) := by
  obtain ⟨haborted, hnamed⟩ := audit_of_rejected h rest
  refine ⟨?_, ?_⟩
  · rw [haborted]
    simp
  · intro _
    exact ⟨[], nodeId, rest, rfl, hnamed, (rejected_iff.mp h).1, by simp⟩

theorem auditSound_of_checked {nodeId : JSString} (h : Checked sha256 q input nodeId)
    (rest : List JSString) :
    AuditSound sha256 q input (nodeId :: rest) ↔ AuditSound sha256 q input rest := by
  unfold AuditSound
  rw [audit_of_passed (Or.inl h)]
  refine and_congr ?_ ?_
  · rw [List.forall_mem_cons, and_iff_right h]
  · refine imp_congr_right fun _ => ?_
    constructor
    · rintro ⟨before, faulty, after, hcut, hnamed, hfaulty, hbefore⟩
      cases before with
      | nil =>
        obtain ⟨rfl, -⟩ := List.cons.inj hcut
        exact absurd h hfaulty
      | cons first before =>
        obtain ⟨-, hrest⟩ := List.cons.inj hcut
        exact ⟨before, faulty, after, hrest, hnamed, hfaulty, (List.forall_mem_cons.mp hbefore).2⟩
    · rintro ⟨before, faulty, after, rfl, hnamed, hfaulty, hbefore⟩
      exact ⟨nodeId :: before, faulty, after, rfl, hnamed, hfaulty,
        List.forall_mem_cons.mpr ⟨h, hbefore⟩⟩

/-- Someone without a registered key is passed over, which is neither of the two outcomes. -/
theorem not_auditSound_of_unregistered {nodeId : JSString} (h : Unregistered input nodeId)
    (rest : List JSString) : ¬ AuditSound sha256 q input (nodeId :: rest) := by
  have hnot : ¬ Checked sha256 q input nodeId := fun hchecked => hchecked.not_unregistered h
  rintro ⟨hclean, habort⟩
  cases haborted : (auditIdentifiableAbort sha256 q input (nodeId :: rest)).aborted with
  | false => exact hnot (hclean haborted nodeId List.mem_cons_self)
  | true =>
    obtain ⟨before, faulty, after, hcut, hnamed, -, hbefore⟩ := habort haborted
    cases before with
    | nil =>
      obtain ⟨rfl, -⟩ := List.cons.inj hcut
      exact (rejected_iff.mp (rejected_of_faultyNodeId hnamed)).2 h
    | cons first before =>
      obtain ⟨rfl, -⟩ := List.cons.inj hcut
      exact hnot (hbefore _ List.mem_cons_self)

theorem unregisteredAfterRejected_cons {nodeId : JSString} {rest : List JSString} :
    UnregisteredAfterRejected sha256 q input (nodeId :: rest) ↔
      ¬ Unregistered input nodeId ∧
        (Rejected sha256 q input nodeId ∨ UnregisteredAfterRejected sha256 q input rest) := by
  constructor
  · intro h
    refine ⟨fun hunregistered => ?_, ?_⟩
    · obtain ⟨earlier, hmem, -⟩ := h [] nodeId rest rfl hunregistered
      cases hmem
    · by_cases hrejected : Rejected sha256 q input nodeId
      · exact Or.inl hrejected
      · right
        rintro before other after rfl hunregistered
        obtain ⟨earlier, hmem, hearlier⟩ := h (nodeId :: before) other after rfl hunregistered
        rcases List.mem_cons.mp hmem with rfl | hmem
        · exact absurd hearlier hrejected
        · exact ⟨earlier, hmem, hearlier⟩
  · rintro ⟨hnot, h⟩ before other after hcut hunregistered
    cases before with
    | nil =>
      obtain ⟨rfl, -⟩ := List.cons.inj hcut
      exact absurd hunregistered hnot
    | cons first before =>
      obtain ⟨rfl, hrest⟩ := List.cons.inj hcut
      rcases h with hrejected | h
      · exact ⟨nodeId, List.mem_cons_self, hrejected⟩
      · obtain ⟨earlier, hmem, hearlier⟩ := h before other after hrest hunregistered
        exact ⟨earlier, List.mem_cons_of_mem _ hmem, hearlier⟩

end

/-- **Clean audits.** A clean audit means that everyone was checked, and an accusation names
the first one who fails, exactly for the lists in which everyone without a registered key
comes after someone who is rejected. -/
theorem audit_sound_iff (sha256 : Bytes → Digest) (q : ℤ) (input : AuditInput)
    (participatingNodes : List JSString) : AuditSound sha256 q input participatingNodes ↔
      UnregisteredAfterRejected sha256 q input participatingNodes := by
  induction participatingNodes with
  | nil =>
    refine iff_of_true ⟨?_, ?_⟩ ?_
    · simp
    · intro h
      cases h
    · intro before nodeId after hcut
      simp at hcut
  | cons nodeId rest ih =>
    rw [unregisteredAfterRejected_cons]
    by_cases hunregistered : Unregistered input nodeId
    · exact iff_of_false (not_auditSound_of_unregistered hunregistered rest)
        fun h => h.1 hunregistered
    · by_cases hchecked : Checked sha256 q input nodeId
      · have hrejected : ¬ Rejected sha256 q input nodeId :=
          fun h => (rejected_iff.mp h).1 hchecked
        rw [auditSound_of_checked hchecked, ih, and_iff_right hunregistered,
          or_iff_right hrejected]
      · have hrejected := rejected_iff.mpr ⟨hchecked, hunregistered⟩
        exact iff_of_true (auditSound_of_rejected hrejected rest)
          ⟨hunregistered, Or.inl hrejected⟩

/-- Alice has no registered key, and her proof is empty. -/
def unregisteredInput : AuditInput where
  commitments := .set .empty (js "alice") (js "0x02")
  mtaProofs := .set .empty (js "alice") ⟨[], [], [], [], true⟩
  paillierPublicKeys := .empty

/-- The audit of Alice is clean, and nothing of her was checked. -/
theorem unregistered_passes_audit :
    ¬ AuditSound (fun _ => zeroDigest) secp256k1Order unregisteredInput [js "alice"] := by
  rintro ⟨hclean, -⟩
  obtain ⟨-, proof, pubKey, -, hkey, -⟩ := hclean rfl (js "alice") List.mem_cons_self
  cases hkey

/-! ## Honest participants -/

/-- The proof comes from one of the two rounds under the key. -/
inductive MadeInRound (sha256 : Bytes → Digest) (q : ℤ) (key : PaillierPublicKey) :
    MtAProof → Prop where
  | round1 {secretX : ℤ} {random : Round1Randomness q key.n} {output : MtARound1Output} :
    executeMtARound1 sha256 q key secretX random = .ok output →
      MadeInRound sha256 q key output.proof
  | round2 {ciphertextX secretY : ℤ} {random : Round2Randomness q key.n}
    {output : MtARound2Output} :
    executeMtARound2 sha256 q key ciphertextX secretY random = .ok output →
      MadeInRound sha256 q key output.proofB

/-- The contexts of the two rounds. -/
def roundContexts : List JSString := [js "round1", js "round2"]

section

variable (sha256 : Bytes → Digest) (q : ℤ) (input : AuditInput)

/-- The participant supplied a commitment, and a proof made under its registered key. -/
def Honest (nodeId : JSString) : Prop :=
  input.commitments.has nodeId = true ∧ ∃ proof pubKey,
    input.mtaProofs.get nodeId = some proof ∧
    input.paillierPublicKeys.get nodeId = some pubKey ∧ MadeInRound sha256 q pubKey proof

/-- For the proof of the participant, the hash tells the context of the audit from the
contexts of the rounds. -/
def TellsContexts (nodeId : JSString) : Prop :=
  ∀ proof pubKey commitment, input.mtaProofs.get nodeId = some proof →
    input.paillierPublicKeys.get nodeId = some pubKey →
    bigintOfString proof.commitment = .ok commitment → ∀ extraData ∈ roundContexts,
      generateChallenge sha256 q pubKey commitment extraData ≠
        generateChallenge sha256 q pubKey commitment []

variable {sha256 q input}

theorem generateChallenge_nonneg (key : PaillierPublicKey) (ciphertext : ℤ)
    (extraData : JSString) : 0 ≤ generateChallenge sha256 q key ciphertext extraData :=
  Int.tmod_nonneg q (Int.natCast_nonneg _)

theorem generateMtARangeProof_texts {key : PaillierPublicKey} {secretShare : ℤ}
    {extraData : JSString} {random : ProofRandomness q key.n} {proof : MtAProof}
    (h : generateMtARangeProof sha256 q key secretShare extraData random = .ok proof) :
    ∃ ciphertext, proof.commitment = js "0x" ++ toString16 ciphertext ∧
      proof.challenge =
        js "0x" ++ toString16 (generateChallenge sha256 q key ciphertext extraData) := by
  unfold generateMtARangeProof at h
  obtain ⟨ciphertext, -, h⟩ := bind_eq_ok h
  cases h
  exact ⟨ciphertext, rfl, rfl⟩

theorem MadeInRound.texts {key : PaillierPublicKey} {proof : MtAProof}
    (h : MadeInRound sha256 q key proof) : ∃ ciphertext, ∃ extraData ∈ roundContexts,
      proof.commitment = js "0x" ++ toString16 ciphertext ∧
      proof.challenge =
        js "0x" ++ toString16 (generateChallenge sha256 q key ciphertext extraData) := by
  cases h with
  | round1 h =>
    unfold executeMtARound1 at h
    obtain ⟨_, -, h⟩ := bind_eq_ok h
    obtain ⟨proof, hproof, h⟩ := bind_eq_ok h
    cases h
    obtain ⟨ciphertext, htexts⟩ := generateMtARangeProof_texts hproof
    exact ⟨ciphertext, js "round1", by simp [roundContexts], htexts⟩
  | round2 h =>
    unfold executeMtARound2 at h
    obtain ⟨_, -, h⟩ := bind_eq_ok h
    obtain ⟨_, -, h⟩ := bind_eq_ok h
    obtain ⟨_, -, h⟩ := bind_eq_ok h
    obtain ⟨_, -, h⟩ := bind_eq_ok h
    obtain ⟨_, -, h⟩ := bind_eq_ok h
    obtain ⟨proof, hproof, h⟩ := bind_eq_ok h
    cases h
    obtain ⟨ciphertext, htexts⟩ := generateMtARangeProof_texts hproof
    exact ⟨ciphertext, js "round2", by simp [roundContexts], htexts⟩

/-- **What an accepted proof is.** -/
theorem verifyMtARangeProof_iff {key : PaillierPublicKey} {proof : MtAProof} {extraData : JSString} :
    verifyMtARangeProof sha256 q key proof extraData = true ↔
      (js "0x").isPrefixOf proof.commitment = true ∧ (js "0x").isPrefixOf proof.z = true ∧
      (∃ z, bigintOfString proof.z = .ok z ∧ 0 ≤ z ∧ z < q) ∧
      ∃ commitment, bigintOfString proof.commitment = .ok commitment ∧ 0 < commitment ∧
        commitment < key.nSquared ∧ (proof.challenge = [] ∨ bigintOfString proof.challenge =
          .ok (generateChallenge sha256 q key commitment extraData)) := by
  rw [verifyMtARangeProof, toOption_getD_eq_true_iff]
  constructor
  · intro hcheck
    unfold checkMtARangeProof at hcheck
    split at hcheck
    · cases hcheck
    next hmarks =>
      simp only [Bool.or_eq_true, Bool.not_eq_true', not_or, Bool.not_eq_false] at hmarks
      obtain ⟨z, hz, hcheck⟩ := bind_eq_ok hcheck
      obtain ⟨commitment, hcommitment, hcheck⟩ := bind_eq_ok hcheck
      split at hcheck
      · cases hcheck
      next hzrange =>
        split at hcheck
        · cases hcheck
        next hrange =>
          refine ⟨hmarks.1, hmarks.2, ⟨z, hz, by omega, by omega⟩, commitment, hcommitment,
            by omega, by omega, ?_⟩
          dsimp only at hcheck
          split at hcheck
          next hempty => exact Or.inl hempty
          next hchallenge =>
            obtain ⟨challenge, hparsed, hcheck⟩ := bind_eq_ok hcheck
            rw [hparsed, of_decide_eq_true (Except.ok.inj hcheck)]
            exact Or.inr rfl
  · rintro ⟨hmark, hmark', ⟨z, hz, hz₀, hzq⟩, commitment, hcommitment, h₀, hsq, hchallenge⟩
    have hzrange : ¬(z < 0 ∨ z ≥ q) := by omega
    have hrange : ¬(commitment ≤ 0 ∨ commitment ≥ key.nSquared) := by omega
    rcases hchallenge with hempty | hparsed
    · simp [checkMtARangeProof, hmark, hmark', hz, hcommitment, hzrange, hrange, hempty, bind,
        Except.bind, pure, Except.pure]
    · by_cases hempty : proof.challenge = []
      · simp [checkMtARangeProof, hmark, hmark', hz, hcommitment, hzrange, hrange, hempty, bind,
          Except.bind, pure, Except.pure]
      · simp [checkMtARangeProof, hmark, hmark', hz, hcommitment, hzrange, hrange, hempty, hparsed,
          bind, Except.bind, pure, Except.pure]

/-- An accepted proof that has a challenge has the one of the context. -/
theorem challenge_of_verify {key : PaillierPublicKey} {proof : MtAProof} {extraData : JSString}
    (h : verifyMtARangeProof sha256 q key proof extraData = true)
    (hchallenge : proof.challenge ≠ []) :
    ∃ commitment, bigintOfString proof.commitment = .ok commitment ∧
      bigintOfString proof.challenge =
        .ok (generateChallenge sha256 q key commitment extraData) := by
  obtain ⟨-, -, -, commitment, hcommitment, -, -, hparsed⟩ := verifyMtARangeProof_iff.mp h
  exact ⟨commitment, hcommitment, hparsed.resolve_left hchallenge⟩

/-- An honest participant is rejected: the audit verifies the proof without its context. -/
theorem Honest.rejected {nodeId : JSString} (h : Honest sha256 q input nodeId)
    (htells : TellsContexts sha256 q input nodeId) : Rejected sha256 q input nodeId := by
  obtain ⟨-, proof, pubKey, hproof, hkey, hmade⟩ := h
  obtain ⟨ciphertext, extraData, hextra, hcommitmentText, hchallengeText⟩ := hmade.texts
  refine Or.inr (Or.inr ⟨proof, pubKey, hproof, hkey, ?_⟩)
  by_contra hverify
  rw [Bool.not_eq_false] at hverify
  have hne : proof.challenge ≠ [] := by
    rw [hchallengeText]
    exact List.append_ne_nil_of_left_ne_nil (by decide) _
  obtain ⟨commitment, hcommitment, hchallenge⟩ := challenge_of_verify hverify hne
  rw [hchallengeText, bigintOfString_toString16 (generateChallenge_nonneg pubKey _ _)] at hchallenge
  have hciphertext : commitment = ciphertext := by
    have hread := hcommitment
    rw [hcommitmentText] at hread
    rcases lt_or_ge ciphertext 0 with hneg | hnonneg
    · exact absurd hread (bigintOfString_toString16_neg hneg)
    · rw [bigintOfString_toString16 hnonneg] at hread
      exact (Except.ok.inj hread).symm
  subst hciphertext
  exact htells proof pubKey commitment hproof hkey hcommitment extraData hextra
    (Except.ok.inj hchallenge)

end

variable {sha256 : Bytes → Digest} {q : ℤ} {input : AuditInput}

/-- **Honest participants.** The audit of honest participants is clean exactly when there are
none: the first of them is accused. -/
theorem honest_audit_clean_iff {participatingNodes : List JSString}
    (hhonest : ∀ nodeId ∈ participatingNodes, Honest sha256 q input nodeId)
    (htells : ∀ nodeId ∈ participatingNodes, TellsContexts sha256 q input nodeId) :
    (auditIdentifiableAbort sha256 q input participatingNodes).aborted = false ↔
      participatingNodes = [] := by
  constructor
  · intro hclean
    cases participatingNodes with
    | nil => rfl
    | cons nodeId rest =>
      have hrejected := (hhonest nodeId List.mem_cons_self).rejected
        (htells nodeId List.mem_cons_self)
      rw [(audit_of_rejected hrejected rest).1] at hclean
      cases hclean
  · rintro rfl
    rfl

/-! ## One honest participant -/

/-- A hash that tells the empty context from the others by the last byte. -/
def contextHash (bytes : Bytes) : Digest :=
  if bytes.getLast? = some 58 then zeroDigest else oneDigest

theorem contextHash_encode {extraData : JSString} {b : UInt8}
    (h : (textEncode (58 :: extraData)).getLast? = some b) (text : JSString) :
    contextHash (textEncode (text ++ js ":" ++ extraData)) =
      if b = 58 then zeroDigest else oneDigest := by
  have hencode : textEncode (text ++ js ":" ++ extraData) =
      textEncode text ++ textEncode (58 :: extraData) := by
    rw [List.append_assoc]
    exact textEncode_append rfl text extraData
  rw [contextHash, hencode, List.getLast?_append, h]
  simp

theorem generateChallenge_contextHash (key : PaillierPublicKey) (ciphertext : ℤ) :
    generateChallenge contextHash secp256k1Order key ciphertext [] = 0 ∧
      ∀ extraData ∈ roundContexts,
        generateChallenge contextHash secp256k1Order key ciphertext extraData = 1 := by
  constructor
  · unfold generateChallenge
    dsimp only
    rw [contextHash_encode (b := 58) rfl]
    rfl
  · intro extraData hextra
    unfold generateChallenge
    dsimp only
    rcases List.mem_cons.mp hextra with rfl | hextra
    · rw [contextHash_encode (b := 49) (by decide)]
      rfl
    · obtain rfl := List.mem_singleton.mp hextra
      rw [contextHash_encode (b := 50) (by decide)]
      rfl

/-- Alice supplied a commitment and this proof, and registered this key. -/
def honestInput (proof : MtAProof) (key : PaillierPublicKey) : AuditInput where
  commitments := .set .empty (js "alice") (js "0x02")
  mtaProofs := .set .empty (js "alice") proof
  paillierPublicKeys := .set .empty (js "alice") key

theorem tellsContexts_contextHash (input : AuditInput) (nodeId : JSString) :
    TellsContexts contextHash secp256k1Order input nodeId := by
  intro proof pubKey commitment _ _ _ extraData hextra
  obtain ⟨hempty, hround⟩ := generateChallenge_contextHash pubKey commitment
  rw [hempty, hround extraData hextra]
  decide

/-- With keys of 1023 bits, Alice proves her scalar 1 in round 1. -/
theorem exists_honest :
    ∃ proof key, Honest contextHash secp256k1Order (honestInput proof key) (js "alice") := by
  obtain ⟨keys, -, -, hpos, hodd, hqn⟩ := exists_largeKeys
  have hfinds := finds_zeroDraws hpos hodd
  obtain ⟨output, houtput, -⟩ := executeMtARound1_ok contextHash keys.one_lt_n keys.publicKey_eq
    hqn (x := 1) keys.one_lt_n (zeroRandom₁ hpos ⟨1, by decide⟩) ⟨hfinds, hfinds⟩
  exact ⟨output.proof, keys.keyPair.publicKey, rfl, output.proof, keys.keyPair.publicKey, rfl, rfl,
    .round1 houtput⟩

/-- For one honest participant. -/
theorem honest_audit_clean_iff_alice : ∃ proof key,
    (auditIdentifiableAbort contextHash secp256k1Order (honestInput proof key)
      [js "alice"]).aborted = false ↔ [js "alice"] = [] := by
  obtain ⟨proof, key, hhonest⟩ := exists_honest
  refine ⟨proof, key, honest_audit_clean_iff ?_ ?_⟩
  · intro nodeId hmem
    obtain rfl := List.mem_singleton.mp hmem
    exact hhonest
  · intro nodeId _
    exact tellsContexts_contextHash _ nodeId

/-- Alice is honest, the hash tells the contexts, and the audit accuses her. -/
theorem honest_participant_accused : ∃ proof key,
    Honest contextHash secp256k1Order (honestInput proof key) (js "alice") ∧
    TellsContexts contextHash secp256k1Order (honestInput proof key) (js "alice") ∧
    (auditIdentifiableAbort contextHash secp256k1Order (honestInput proof key)
      [js "alice"]).faultyNodeId = some (js "alice") := by
  obtain ⟨proof, key, hhonest⟩ := exists_honest
  have htells := tellsContexts_contextHash (honestInput proof key) (js "alice")
  exact ⟨proof, key, hhonest, htells, (audit_of_rejected (hhonest.rejected htells) []).2⟩

end BioFire
