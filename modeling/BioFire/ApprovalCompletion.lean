import BioFire.Delegation
import BioFire.Quorum
import BioFire.Separators

/-!
# Completing an approval (`src/lib/governance/governance_engine.ts`)

Which holders can bring a fresh approval to `APPROVED`. Ed25519, BLS and aggregation
are correct, and a holder computes BLS secrets from the seed and the path it registered.

* `verifyRoleSignature_signed`: the identity that a holder's signature names;
* `submit_cases`: what one submission does;
* `approval_completes_iff`: every holder must know a secret of its registered key.
-/

namespace BioFire.Governance

open Runs Separators

/-- Correct and unforgeable signatures, and an aggregation that takes them. -/
structure ApprovalSchemes (oracles : GovernanceOracles) where
  ed25519Sign : Bytes → Bytes → Bytes
  ed25519PublicKey : Bytes → Bytes
  blsSign : Bytes → Bytes → JSString
  blsPublicKey : Bytes → JSString
  ed25519_verify : ∀ message key message' pub,
    oracles.ed25519Verify (ed25519Sign message key) message' pub = .ok true ↔
      message' = message ∧ pub = ed25519PublicKey key
  bls_verify : ∀ message secret message' secret',
    oracles.verifyBLSSignature (blsPublicKey secret') message' (blsSign message secret) = true ↔
      message' = message ∧ blsPublicKey secret' = blsPublicKey secret
  aggregates : ∀ signatures, signatures ≠ [] →
    (∀ s ∈ signatures, ∃ message secret, s.1 = blsSign message secret) →
    ∃ aggregated, oracles.aggregateSignatures signatures = .ok aggregated

/-- A call of `registerRoleIdentity`, with the secret that `generateBLSKeyPair` draws. -/
structure Registration where
  role : GovernanceRole
  ed25519PublicKey : JSString
  seed : Bytes
  hdPath : JSString
  blsSecret : Bytes

/-- A holder, with its Ed25519 key and what it registered. -/
structure Holder where
  role : GovernanceRole
  privateKey : Bytes
  seed : Bytes
  hdPath : JSString

variable {oracles : GovernanceOracles} (schemes : ApprovalSchemes oracles)

def register (state : GovernanceState) (r : Registration) : GovernanceState :=
  (registerRoleIdentity state r.role r.ed25519PublicKey r.hdPath
    (schemes.blsPublicKey r.blsSecret)).1

/-- The identity under which a holder signs: the first one of its role and key. -/
def holderEntry (state : GovernanceState) (h : Holder) : Option (JSString × RoleIdentity) :=
  state.roleIdentities.entries.find? fun e => e.2.role = h.role &&
    (hexToBytes (removeHexPrefix e.1)).toOption = some (schemes.ed25519PublicKey h.privateKey)

/-- The holder can compute a secret of its registered BLS key. -/
def KnowsKey (derivedKeys : Bytes → JSString → Set Bytes) (state : GovernanceState) (h : Holder) :
    Prop :=
  ∃ e, holderEntry schemes state h = some e ∧
    ∃ secret ∈ derivedKeys h.seed h.hdPath, e.2.blsPublicKey = schemes.blsPublicKey secret

/-- Signatures of any messages that a holder can make. -/
def CanProduce (derivedKeys : Bytes → JSString → Set Bytes) (h : Holder)
    (sigs : JSString × JSString) : Prop :=
  (∃ message, sigs.1 = hexText (schemes.ed25519Sign message h.privateKey)) ∧
    ∃ message, ∃ secret ∈ derivedKeys h.seed h.hdPath, sigs.2 = schemes.blsSign message secret

/-! ## Registered identities -/

/-- What `registerRoleIdentity` stores. -/
def Enrolled (state : GovernanceState) : Prop :=
  ∀ e ∈ state.roleIdentities.entries, e.2.ed25519PublicKey = e.1 ∧ e.2.expiresAt = none ∧
    ∃ secret, e.2.blsPublicKey = schemes.blsPublicKey secret

theorem enrolled_register {state : GovernanceState} (h : Enrolled schemes state)
    (registrations : List Registration) :
    Enrolled schemes (registrations.foldl (register schemes) state) := by
  induction registrations generalizing state with
  | nil => exact h
  | cons r registrations ih =>
    apply ih
    intro e he
    rcases InsertionMap.mem_entries_set.mp he with rfl | ⟨he, -⟩
    · exact ⟨rfl, rfl, r.blsSecret, rfl⟩
    · exact h e he

variable {schemes}

theorem ed25519Check_signed {pubKey : JSString} {message message' key : Bytes} :
    ed25519Check oracles pubKey message' (hexText (schemes.ed25519Sign message key)) = .ok true ↔
      message' = message ∧
        (hexToBytes (removeHexPrefix pubKey)).toOption = some (schemes.ed25519PublicKey key) := by
  rw [ed25519Check, hexText, removeHexPrefix_append, hexToBytes_bytesToHex]
  cases hexToBytes (removeHexPrefix pubKey) with
  | error e => simp [bind, Except.bind, Except.toOption]
  | ok pub =>
    simp only [bind, Except.bind, Except.toOption, Option.some.injEq]
    exact schemes.ed25519_verify message key message' pub

/-- **The identity of a signature.** A holder's signature of the message names its first
identity, one of another message none. -/
theorem verifyRoleSignature_signed {state : GovernanceState} (henrolled : Enrolled schemes state)
    (h : Holder) (message message' : Bytes) (now : ℤ) :
    (verifyRoleSignature oracles state h.role message'
        (hexText (schemes.ed25519Sign message h.privateKey)) now).identity =
      if message' = message then (holderEntry schemes state h).map Prod.snd else none := by
  rw [verifyRoleSignature, holderEntry]
  have hfresh : ∀ e ∈ state.roleIdentities.entries, e.2.expired now = false := by
    intro e he
    rw [RoleIdentity.expired, (henrolled e he).2.1]
  generalize state.roleIdentities.entries = entries at hfresh
  induction entries with
  | nil => simp [verifyRoleLoop]
  | cons e entries ih =>
    have hrest := ih fun e he => hfresh e (List.mem_cons_of_mem _ he)
    by_cases hhit : e.2.role = h.role ∧ ed25519Check oracles e.1 message'
        (hexText (schemes.ed25519Sign message h.privateKey)) = .ok true
    · obtain ⟨hmessage, hkey⟩ := ed25519Check_signed.mp hhit.2
      rw [verifyRoleLoop_hit hhit.1 hhit.2, hfresh e List.mem_cons_self, if_pos hmessage]
      simp [hhit.1, hkey]
    · rw [verifyRoleLoop_skip fun hrole hcheck => hhit ⟨hrole, hcheck⟩, hrest]
      by_cases hmessage : message' = message
      · rw [if_pos hmessage, if_pos hmessage, List.find?_cons_of_neg]
        intro hfound
        rw [Bool.and_eq_true, decide_eq_true_eq, decide_eq_true_eq] at hfound
        exact hhit ⟨hfound.1, ed25519Check_signed.mpr ⟨hmessage, hfound.2⟩⟩
      · rw [if_neg hmessage, if_neg hmessage]

/-! ## One submission -/

theorem checkSubmission_of {state : GovernanceState} {approval : PendingApproval}
    {role : GovernanceRole} {ed25519Signature blsSignature : JSString} {clock : ℕ → ℤ}
    {identity : RoleIdentity} (hstatus : approval.status = .PENDING)
    (hidentity : (verifyRoleSignature oracles state role (approvalMessage approval)
      ed25519Signature (clock 1)).identity = some identity)
    (hbls : oracles.verifyBLSSignature identity.blsPublicKey (approvalMessage approval)
      blsSignature = true) :
    checkSubmission oracles state approval role ed25519Signature blsSignature clock =
      .ok identity := by
  have hvalid : (verifyRoleSignature oracles state role (approvalMessage approval) ed25519Signature
      (clock 1)).valid = _ := verifyRoleSignature_isSome _ _ _ _ _
  rw [hidentity, Option.isSome_some] at hvalid
  simp [checkSubmission, hstatus, hvalid, hidentity, hbls]

/-- The signatures are enough for the tier. -/
def ThresholdMet (approval : PendingApproval) : Prop :=
  approval.tier.thresholdCount ≤ approval.approvals.size

/-- **One submission.** It is rejected and changes nothing, or it adds a signature; the
approval is complete when that is enough and the signatures aggregate. -/
theorem submit_cases {state : GovernanceState} {approvalId : JSString} {ref : ℕ}
    {approval : PendingApproval} (hlookup : lookupApproval state approvalId = some (ref, approval))
    (role : GovernanceRole) (ed25519Signature blsSignature : JSString) (clock : ℕ → ℤ) :
    (submitApproval oracles state approvalId role ed25519Signature blsSignature clock).1 = state ∧
      (∃ e, checkSubmission oracles state approval role ed25519Signature blsSignature clock =
        .error e) ∨
    ∃ identity status,
      checkSubmission oracles state approval role ed25519Signature blsSignature clock =
        .ok identity ∧
      let approval' := { approval with
        approvals := approval.approvals.set identity.ed25519PublicKey blsSignature, status }
      lookupApproval (submitApproval oracles state approvalId role ed25519Signature blsSignature
        clock).1 approvalId = some (ref, approval') ∧
      (submitApproval oracles state approvalId role ed25519Signature blsSignature
        clock).1.roleIdentities = state.roleIdentities ∧
      (status = .APPROVED ∧ ThresholdMet approval' ∨ status = approval.status ∧
        (ThresholdMet approval' →
          ∃ e, oracles.aggregateSignatures approval'.approvals.values.zipIdx = .error e)) := by
  obtain ⟨hget, happroval⟩ := lookupApproval_eq_some hlookup
  have hlt := (List.getElem?_eq_some_iff.mp happroval).1
  have hwrite : ∀ approval' : PendingApproval, lookupApproval
      { state with approvals := state.approvals.set ref approval' } approvalId =
        some (ref, approval') := by
    intro approval'
    simp [lookupApproval, hget, hlt]
  have hremaining : ∀ approval' : PendingApproval,
      max 0 (approval'.tier.thresholdCount - (approval'.approvals.size : ℚ)) = 0 ↔
        ThresholdMet approval' := by
    intro approval'
    rw [max_eq_left_iff, sub_nonpos, ThresholdMet]
  rw [submitApproval, hlookup]
  dsimp only
  cases hcheck : checkSubmission oracles state approval role ed25519Signature blsSignature clock with
  | error e => exact Or.inl ⟨rfl, e, rfl⟩
  | ok identity =>
    right
    dsimp only
    have hmet := hremaining { approval with
      approvals := approval.approvals.set identity.ed25519PublicKey blsSignature }
    dsimp only at hmet
    split
    next hzero =>
      cases haggregate : oracles.aggregateSignatures
          (approval.approvals.set identity.ed25519PublicKey blsSignature).values.zipIdx with
      | error e =>
        exact ⟨identity, approval.status, rfl, hwrite _, rfl,
          Or.inr ⟨rfl, fun _ => ⟨e, haggregate⟩⟩⟩
      | ok aggregated =>
        exact ⟨identity, .APPROVED, rfl, hwrite _, rfl, Or.inl ⟨rfl, hmet.mp hzero⟩⟩
    next hmore =>
      exact ⟨identity, approval.status, rfl, hwrite _, rfl,
        Or.inr ⟨rfl, fun h => absurd (hmet.mpr h) hmore⟩⟩

theorem initiateApproval_lookup {state state' : GovernanceState} {transactionHash : JSString}
    {amountUSD : ℚ} {policyId : JSString} {clock : ℕ → ℤ} {approval : PendingApproval}
    (h : initiateApproval oracles state transactionHash amountUSD policyId clock =
      (state', .ok approval)) (hlock : approval.tier.timeLockSeconds ≤ 0) :
    (∃ ref, lookupApproval state' approval.approvalId = some (ref, approval)) ∧
      state'.roleIdentities = state.roleIdentities ∧ approval.approvals = .empty ∧
      approval.status = .PENDING := by
  simp only [initiateApproval] at h
  split at h
  · cases (Prod.mk.inj h).2
  split at h
  · cases (Prod.mk.inj h).2
  split at h
  · cases (Prod.mk.inj h).2
  · obtain ⟨rfl, hok⟩ := Prod.mk.inj h
    obtain rfl := Except.ok.inj hok
    refine ⟨⟨state.approvals.length, ?_⟩, rfl, rfl, if_neg (not_lt.mpr hlock)⟩
    simp [lookupApproval]

/-! ## Submissions in some order -/

/-- Each holder submits its signatures once, at its readings of the clock. -/
def submissions (approvalId : JSString) (sigs : Holder → JSString × JSString)
    (order : List (Holder × (ℕ → ℤ))) : List GovernanceEvent :=
  order.map fun (h, clock) => .submitApproval approvalId h.role (sigs h).1 (sigs h).2 clock

/-- The approval of the id, after events on its engine, as it was but for its signatures
and its status. -/
def Continues (state : GovernanceState) (approval : PendingApproval) (s : GovernanceState)
    (ref : ℕ) (a : PendingApproval) : Prop :=
  lookupApproval s approval.approvalId = some (ref, a) ∧
    s.roleIdentities = state.roleIdentities ∧
    a = { approval with approvals := a.approvals, status := a.status }

theorem Continues.message {state s : GovernanceState} {approval a : PendingApproval} {ref : ℕ}
    (h : Continues state approval s ref a) : approvalMessage a = approvalMessage approval := by
  rw [h.2.2]
  rfl

theorem Continues.tier {state s : GovernanceState} {approval a : PendingApproval} {ref : ℕ}
    (h : Continues state approval s ref a) : a.tier = approval.tier := by
  rw [h.2.2]

theorem Continues.submit {state s : GovernanceState} {approval a : PendingApproval} {ref : ℕ}
    (h : Continues state approval s ref a) (role : GovernanceRole)
    (ed25519Signature blsSignature : JSString) (clock : ℕ → ℤ) :
    let s' := (submitApproval oracles s approval.approvalId role ed25519Signature blsSignature clock).1
    Continues state approval s' ref a ∧
      (∃ e, checkSubmission oracles s a role ed25519Signature blsSignature clock = .error e) ∨
    ∃ identity a', checkSubmission oracles s a role ed25519Signature blsSignature clock =
        .ok identity ∧ Continues state approval s' ref a' ∧
      a'.approvals = a.approvals.set identity.ed25519PublicKey blsSignature ∧
      (a'.status = .APPROVED ∧ ThresholdMet a' ∨ a'.status = a.status ∧
        (ThresholdMet a' →
          ∃ e, oracles.aggregateSignatures a'.approvals.values.zipIdx = .error e)) := by
  obtain ⟨hlookup, hroles, ha⟩ := h
  rcases submit_cases hlookup role ed25519Signature blsSignature clock with
    ⟨hsame, hcheck⟩ | ⟨identity, status, hcheck, hlookup', hroles', hstatus⟩
  · exact Or.inl ⟨⟨by rw [hsame]; exact hlookup, by rw [hsame]; exact hroles, ha⟩, hcheck⟩
  · refine Or.inr ⟨identity, _, hcheck, ⟨hlookup', hroles'.trans hroles, ?_⟩, rfl, hstatus⟩
    rw [ha]

theorem holderEntry_congr {state s : GovernanceState}
    (h : s.roleIdentities = state.roleIdentities) :
    holderEntry schemes s = holderEntry schemes state := by
  funext holder
  rw [holderEntry, holderEntry, h]

theorem enrolled_congr {state s : GovernanceState} (h : s.roleIdentities = state.roleIdentities)
    (henrolled : Enrolled schemes state) : Enrolled schemes s := by
  rw [Enrolled, h]
  exact henrolled

/-- Only a holder that knows the secret of its key is accepted. -/
theorem knowsKey_of_accepted {derivedKeys : Bytes → JSString → Set Bytes}
    {state : GovernanceState} (henrolled : Enrolled schemes state) {approval : PendingApproval}
    {h : Holder} {sigs : JSString × JSString} (hsigs : CanProduce schemes derivedKeys h sigs)
    {clock : ℕ → ℤ} {identity : RoleIdentity}
    (hcheck : checkSubmission oracles state approval h.role sigs.1 sigs.2 clock = .ok identity) :
    KnowsKey schemes derivedKeys state h := by
  obtain ⟨⟨message, hed25519⟩, message', secret, hsecret, hbls⟩ := hsigs
  obtain ⟨-, hidentity, hverify⟩ := checkSubmission_ok hcheck
  rw [hed25519, verifyRoleSignature_signed henrolled] at hidentity
  split at hidentity
  · obtain ⟨e, he, rfl⟩ := Option.map_eq_some_iff.mp hidentity
    obtain ⟨-, -, drawn, hdrawn⟩ := henrolled e (List.mem_of_find?_eq_some he)
    rw [hdrawn, hbls, schemes.bls_verify] at hverify
    exact ⟨e, he, secret, hsecret, hdrawn.trans hverify.2⟩
  · cases hidentity

section Completion

open Classical

variable {derivedKeys : Bytes → JSString → Set Bytes} {state : GovernanceState}
  {approval : PendingApproval}

/-- After any submissions there are at most as many signatures as holders that know the
secret of their key. -/
theorem size_le_knowing (henrolled : Enrolled schemes state) {ref : ℕ}
    (hstart : lookupApproval state approval.approvalId = some (ref, approval))
    (hempty : approval.approvals = .empty) (hpending : approval.status = .PENDING)
    {sigs : Holder → JSString × JSString} {order : List (Holder × (ℕ → ℤ))}
    (hsigs : ∀ e ∈ order, CanProduce schemes derivedKeys e.1 (sigs e.1)) :
    ∃ a, Continues state approval
        (run (step oracles) state (submissions approval.approvalId sigs order)) ref a ∧
      a.approvals.size ≤ order.countP (fun e => KnowsKey schemes derivedKeys state e.1) ∧
      (a.status = .APPROVED → ThresholdMet a) := by
  induction order using List.reverseRecOn with
  | nil =>
    refine ⟨approval, ⟨hstart, rfl, rfl⟩, ?_, fun h => ?_⟩
    · rw [hempty]
      exact Nat.zero_le _
    · rw [hpending] at h
      cases h
  | append_singleton order e ih =>
    obtain ⟨a, hcontinues, hsize, hmet⟩ := ih fun e he => hsigs e (List.mem_append_left _ he)
    obtain ⟨h, clock⟩ := e
    rw [submissions, List.map_append, List.map_singleton, run_concat, ← submissions,
      List.countP_append]
    rcases hcontinues.submit h.role (sigs h).1 (sigs h).2 clock with
      ⟨hsame, -⟩ | ⟨identity, a', hcheck, hcontinues', happrovals, hstatus⟩
    · exact ⟨a, hsame, by omega, hmet⟩
    · have hknows : KnowsKey schemes derivedKeys state h := by
        have hthere := knowsKey_of_accepted (enrolled_congr hcontinues.2.1 henrolled)
          (hsigs (h, clock) (List.mem_append_right _ (List.mem_singleton_self _))) hcheck
        rwa [KnowsKey, holderEntry_congr hcontinues.2.1] at hthere
      refine ⟨a', hcontinues', ?_, ?_⟩
      · have hset := a.approvals.size_set_le identity.ed25519PublicKey (sigs h).2
        rw [happrovals, List.countP_singleton, if_pos (by simpa using hknows)]
        omega
      · intro happroved
        rcases hstatus with ⟨-, hmet'⟩ | ⟨hsame, -⟩
        · exact hmet'
        · exact absurd (hsame.symm.trans happroved) (checkSubmission_ok hcheck).1

/-- A holder's signatures of the approval, under a secret of its registered key. -/
def Answers (schemes : ApprovalSchemes oracles) (state : GovernanceState)
    (approval : PendingApproval) (h : Holder) (sigs : JSString × JSString) : Prop :=
  ∃ e secret, holderEntry schemes state h = some e ∧
    e.2.blsPublicKey = schemes.blsPublicKey secret ∧
    sigs = (hexText (schemes.ed25519Sign (approvalMessage approval) h.privateKey),
      schemes.blsSign (approvalMessage approval) secret)

theorem Answers.accepted (henrolled : Enrolled schemes state) {s : GovernanceState}
    {a : PendingApproval} {ref : ℕ} (hcontinues : Continues state approval s ref a)
    (hpending : a.status = .PENDING) {h : Holder} {sigs : JSString × JSString}
    (hanswers : Answers schemes state approval h sigs) (clock : ℕ → ℤ) :
    ∃ e, holderEntry schemes state h = some e ∧
      checkSubmission oracles s a h.role sigs.1 sigs.2 clock = .ok e.2 := by
  obtain ⟨e, secret, he, hkey, rfl⟩ := hanswers
  refine ⟨e, he, checkSubmission_of hpending ?_ ?_⟩
  · rw [verifyRoleSignature_signed (enrolled_congr hcontinues.2.1 henrolled), hcontinues.message,
      if_pos rfl, holderEntry_congr hcontinues.2.1, he]
    rfl
  · rw [hcontinues.message, hkey]
    exact (schemes.bls_verify _ _ _ _).mpr ⟨rfl, rfl⟩

/-- The text under which a holder is registered. -/
def keyText (schemes : ApprovalSchemes oracles) (state : GovernanceState) (h : Holder) : JSString :=
  ((holderEntry schemes state h).map Prod.fst).getD []

/-- Two holders with different keys are registered under different texts. -/
theorem publicKey_of_keyText {h h' : Holder} {e : JSString × RoleIdentity}
    (he : holderEntry schemes state h = some e) {e' : JSString × RoleIdentity}
    (he' : holderEntry schemes state h' = some e') (htext : e.1 = e'.1) :
    schemes.ed25519PublicKey h.privateKey = schemes.ed25519PublicKey h'.privateKey := by
  have hfound := List.find?_some he
  have hfound' := List.find?_some he'
  rw [Bool.and_eq_true, decide_eq_true_eq, decide_eq_true_eq] at hfound hfound'
  exact Option.some.inj (hfound.2.symm.trans (htext ▸ hfound'.2))

/-- After submissions of different holders that know their secrets, every one of them has
signed. -/
theorem all_signed (henrolled : Enrolled schemes state) {ref k : ℕ}
    (hstart : lookupApproval state approval.approvalId = some (ref, approval))
    (hempty : approval.approvals = .empty) (hpending : approval.status = .PENDING)
    (hthreshold : approval.tier.thresholdCount = k) (hk : 1 ≤ k)
    {sigs : Holder → JSString × JSString} {order : List (Holder × (ℕ → ℤ))}
    (hdistinct : (order.map fun e => schemes.ed25519PublicKey e.1.privateKey).Nodup)
    (hlength : order.length ≤ k)
    (hsigs : ∀ e ∈ order, Answers schemes state approval e.1 (sigs e.1)) :
    ∃ a, Continues state approval
        (run (step oracles) state (submissions approval.approvalId sigs order)) ref a ∧
      a.approvals.keys = order.map (fun e => keyText schemes state e.1) ∧
      (∀ v ∈ a.approvals.values, ∃ message secret, v = schemes.blsSign message secret) ∧
      a.status = if order.length < k then .PENDING else .APPROVED := by
  induction order using List.reverseRecOn with
  | nil =>
    refine ⟨approval, ⟨hstart, rfl, rfl⟩, ?_, ?_, ?_⟩
    · rw [hempty]
      rfl
    · rw [hempty]
      intro v hv
      cases hv
    · rw [List.length_nil, if_pos (by omega), hpending]
  | append_singleton order e ih =>
    obtain ⟨h, clock⟩ := e
    rw [List.map_append, List.nodup_append] at hdistinct
    rw [List.length_append, List.length_singleton] at hlength
    obtain ⟨a, hcontinues, hkeys, hvalues, hstatus⟩ :=
      ih hdistinct.1 (by omega) fun e he => hsigs e (List.mem_append_left _ he)
    rw [if_pos (by omega)] at hstatus
    obtain ⟨e, he, haccepted⟩ := (hsigs (h, clock)
      (List.mem_append_right _ (List.mem_singleton_self _))).accepted henrolled hcontinues hstatus
      clock
    obtain ⟨_, secret, -, -, hsig⟩ := hsigs (h, clock)
      (List.mem_append_right _ (List.mem_singleton_self _))
    rw [submissions, List.map_append, List.map_singleton, run_concat, ← submissions,
      List.length_append, List.length_singleton]
    rcases hcontinues.submit h.role (sigs h).1 (sigs h).2 clock with
      ⟨-, error, herror⟩ | ⟨identity, a', hcheck, hcontinues', happrovals, hdone⟩
    · rw [haccepted] at herror
      cases herror
    · obtain rfl : e.2 = identity := Except.ok.inj (haccepted.symm.trans hcheck)
      have hname : e.2.ed25519PublicKey = e.1 := (henrolled e (List.mem_of_find?_eq_some he)).1
      have hnew : e.1 ∉ a.approvals.keys := by
        rw [hkeys]
        intro hmem
        obtain ⟨⟨h', clock'⟩, hmem', htext⟩ := List.mem_map.mp hmem
        obtain ⟨e', -, he', -⟩ := hsigs (h', clock') (List.mem_append_left _ hmem')
        have hsame := publicKey_of_keyText he he' (by rw [← htext, keyText, he']; rfl)
        exact hdistinct.2.2 _ (List.mem_map_of_mem hmem') _ (List.mem_singleton_self _) hsame.symm
      rw [hname] at happrovals
      have hentries := InsertionMap.entries_set_of_not_mem hnew (sigs h).2
      have hvalues' : ∀ v ∈ a'.approvals.values, ∃ message secret,
          v = schemes.blsSign message secret := by
        rw [happrovals, InsertionMap.values, hentries, List.map_append]
        intro v hv
        rcases List.mem_append.mp hv with hv | hv
        · exact hvalues v hv
        · rw [List.mem_singleton.mp hv, hsig]
          exact ⟨_, _, rfl⟩
      have hsize : a'.approvals.size = order.length + 1 := by
        have hold : a.approvals.size = order.length := by
          rw [InsertionMap.size, ← List.length_map Prod.fst, ← InsertionMap.keys, hkeys,
            List.length_map]
        rw [happrovals, InsertionMap.size_set_of_not_mem hnew, hold]
      have hmet : ThresholdMet a' ↔ k ≤ order.length + 1 := by
        rw [ThresholdMet, hcontinues'.tier, hthreshold, hsize, Nat.cast_le]
      refine ⟨a', hcontinues', ?_, hvalues', ?_⟩
      · rw [happrovals, InsertionMap.keys, hentries, List.map_append, ← InsertionMap.keys, hkeys,
          List.map_append, List.map_singleton, List.map_singleton, keyText, he]
        rfl
      · rcases hdone with ⟨hstatus', hmet'⟩ | ⟨hstatus', hfails⟩
        · rw [hstatus', if_neg (by have := hmet.mp hmet'; omega)]
        · by_cases hmore : order.length + 1 < k
          · rw [hstatus', hstatus, if_pos hmore]
          · obtain ⟨error, herror⟩ := hfails (hmet.mpr (by omega))
            have hnonempty : a'.approvals.values.zipIdx ≠ [] := by
              intro hnil
              have hlen := congrArg List.length hnil
              rw [List.length_zipIdx, InsertionMap.values, List.length_map] at hlen
              change a'.approvals.size = 0 at hlen
              omega
            obtain ⟨aggregated, haggregated⟩ := schemes.aggregates _ hnonempty
              fun v hv => hvalues' v.1 (List.fst_mem_of_mem_zipIdx hv)
            rw [haggregated] at herror
            cases herror

/-- The events end with the approval of the id approved. -/
def Completes (oracles : GovernanceOracles) (state : GovernanceState) (approvalId : JSString)
    (events : List GovernanceEvent) : Prop :=
  ∃ ref a, lookupApproval (run (step oracles) state events) approvalId = some (ref, a) ∧
    a.status = .APPROVED

/-- The holders have signatures that complete the approval in any order before it expires. -/
def CanComplete (schemes : ApprovalSchemes oracles) (derivedKeys : Bytes → JSString → Set Bytes)
    (state : GovernanceState) (approval : PendingApproval) (holders : List Holder) : Prop :=
  ∃ sigs : Holder → JSString × JSString,
    (∀ h ∈ holders, CanProduce schemes derivedKeys h (sigs h)) ∧
    ∀ order : List (Holder × (ℕ → ℤ)), (order.map Prod.fst).Perm holders →
      (∀ e ∈ order, ∀ i, e.2 i ≤ approval.expiresAt) →
      Completes oracles state approval.approvalId (submissions approval.approvalId sigs order)

section Fresh

variable {ref : ℕ} {holders : List Holder}

theorem knowsKey_of_canComplete (henrolled : Enrolled schemes state)
    (hstart : lookupApproval state approval.approvalId = some (ref, approval))
    (hempty : approval.approvals = .empty) (hpending : approval.status = .PENDING)
    (hthreshold : approval.tier.thresholdCount = holders.length)
    (h : CanComplete schemes derivedKeys state approval holders) :
    holders ≠ [] ∧ ∀ h ∈ holders, KnowsKey schemes derivedKeys state h := by
  obtain ⟨sigs, hsigs, hcompletes⟩ := h
  let order : List (Holder × (ℕ → ℤ)) := holders.map fun h => (h, fun _ => approval.expiresAt)
  have hperm : order.map Prod.fst = holders := by
    rw [List.map_map]
    exact List.map_id holders
  have hmem : ∀ e ∈ order, e.1 ∈ holders := fun e he => hperm ▸ List.mem_map_of_mem he
  have hbefore : ∀ e ∈ order, ∀ i, e.2 i ≤ approval.expiresAt := by
    intro e he i
    obtain ⟨h, -, rfl⟩ := List.mem_map.mp he
    exact le_refl _
  obtain ⟨ref', a, ha, happroved⟩ := hcompletes order (by rw [hperm]) hbefore
  obtain ⟨a', hcontinues, hsize, hmet⟩ := size_le_knowing henrolled hstart hempty hpending
    fun e he => hsigs e.1 (hmem e he)
  obtain ⟨rfl, rfl⟩ := Prod.mk.inj (Option.some.inj (hcontinues.1.symm.trans ha))
  constructor
  · rintro rfl
    have hsame := Option.some.inj (hstart.symm.trans hcontinues.1)
    rw [← (Prod.mk.inj hsame).2, hpending] at happroved
    cases happroved
  · have hsizes := hmet happroved
    rw [ThresholdMet, hcontinues.tier, hthreshold, Nat.cast_le] at hsizes
    have hlength : order.length = holders.length := List.length_map _
    have hcount := List.countP_le_length (p := fun e : Holder × (ℕ → ℤ) =>
      decide (KnowsKey schemes derivedKeys state e.1)) (l := order)
    have hall := List.countP_eq_length.mp (Nat.le_antisymm hcount (by omega))
    intro h hh
    rw [← hperm] at hh
    obtain ⟨e, he, rfl⟩ := List.mem_map.mp hh
    exact of_decide_eq_true (hall e he)

theorem canComplete_of_knowsKey (henrolled : Enrolled schemes state)
    (hstart : lookupApproval state approval.approvalId = some (ref, approval))
    (hempty : approval.approvals = .empty) (hpending : approval.status = .PENDING)
    (hthreshold : approval.tier.thresholdCount = holders.length)
    (hdistinct : (holders.map fun h => schemes.ed25519PublicKey h.privateKey).Nodup)
    (hne : holders ≠ []) (hall : ∀ h ∈ holders, KnowsKey schemes derivedKeys state h) :
    CanComplete schemes derivedKeys state approval holders := by
  have hexists : ∀ h, ∃ sigs, h ∈ holders → Answers schemes state approval h sigs ∧
      CanProduce schemes derivedKeys h sigs := by
    intro h
    by_cases hh : h ∈ holders
    · obtain ⟨e, he, secret, hsecret, hkey⟩ := hall h hh
      exact ⟨_, fun _ => ⟨⟨e, secret, he, hkey, rfl⟩, ⟨_, rfl⟩, _, secret, hsecret, rfl⟩⟩
    · exact ⟨([], []), fun hh' => absurd hh' hh⟩
  choose sigs hsigs using hexists
  refine ⟨sigs, fun h hh => (hsigs h hh).2, fun order hperm _ => ?_⟩
  have hlength : order.length = holders.length := by rw [← hperm.length_eq, List.length_map]
  have hmem : ∀ e ∈ order, e.1 ∈ holders := fun e he => hperm.subset (List.mem_map_of_mem he)
  have hnodup : (order.map fun e => schemes.ed25519PublicKey e.1.privateKey).Nodup := by
    have hmap := (hperm.map fun h => schemes.ed25519PublicKey h.privateKey).nodup_iff.mpr hdistinct
    rwa [List.map_map] at hmap
  obtain ⟨a, hcontinues, -, -, hstatus⟩ := all_signed henrolled hstart hempty hpending
    hthreshold (List.length_pos_iff.mpr hne) hnodup hlength.le
    fun e he => (hsigs e.1 (hmem e he)).1
  rw [if_neg (by omega)] at hstatus
  exact ⟨ref, a, hcontinues.1, hstatus⟩

end Fresh

end Completion

/-- The engine's identities were registered by these calls, the last one for each text. -/
def RegisteredBy (schemes : ApprovalSchemes oracles) (registrations : List Registration)
    (state : GovernanceState) : Prop :=
  state.roleIdentities =
    (registrations.foldl (register schemes) (newEngine .empty)).roleIdentities

theorem RegisteredBy.enrolled {registrations : List Registration} {state : GovernanceState}
    (h : RegisteredBy schemes registrations state) : Enrolled schemes state := by
  refine enrolled_congr h (enrolled_register schemes ?_ registrations)
  intro e he
  cases he

/-- **Completion.** As many holders with different keys as the tier needs can complete a
fresh approval exactly when there are any, and each can compute a secret of the BLS key
that was registered for it. -/
theorem approval_completes_iff (schemes : ApprovalSchemes oracles)
    (derivedKeys : Bytes → JSString → Set Bytes) {registrations : List Registration}
    {state state' : GovernanceState} (hregistered : RegisteredBy schemes registrations state)
    {transactionHash : JSString} {amountUSD : ℚ} {policyId : JSString} {clock : ℕ → ℤ}
    {approval : PendingApproval}
    (hinitiate : initiateApproval oracles state transactionHash amountUSD policyId clock =
      (state', .ok approval))
    (hlock : approval.tier.timeLockSeconds ≤ 0) (holders : List Holder)
    (hthreshold : approval.tier.thresholdCount = holders.length)
    (hdistinct : (holders.map fun h => schemes.ed25519PublicKey h.privateKey).Nodup) :
    CanComplete schemes derivedKeys state' approval holders ↔
      holders ≠ [] ∧ ∀ h ∈ holders, KnowsKey schemes derivedKeys state h := by
  obtain ⟨⟨ref, hstart⟩, hroles, hempty, hpending⟩ := initiateApproval_lookup hinitiate hlock
  have henrolled := enrolled_congr hroles hregistered.enrolled
  have hknows : KnowsKey schemes derivedKeys state' = KnowsKey schemes derivedKeys state := by
    funext h
    rw [KnowsKey, holderEntry_congr hroles, ← KnowsKey]
  rw [← hknows]
  constructor
  · exact knowsKey_of_canComplete henrolled hstart hempty hpending hthreshold
  · rintro ⟨hne, hall⟩
    exact canComplete_of_knowsKey henrolled hstart hempty hpending hthreshold hdistinct hne hall

/-! ## Ideal signatures

A signature is the key and the message, with the length of the key in front. -/

def idealSign (message key : Bytes) : Bytes :=
  List.replicate key.length 1 ++ 0 :: (key ++ message)

theorem idealSign_inj {message key message' key' : Bytes}
    (h : idealSign message key = idealSign message' key') : message' = message ∧ key' = key := by
  have hzero : ∀ n, (0 : UInt8) ∉ List.replicate n 1 :=
    fun n hmem => absurd (List.eq_of_mem_replicate hmem) (by decide)
  obtain ⟨hlength, hrest⟩ := append_cons_inj (hzero _) (hzero _) h
  have hlengths : key.length = key'.length := by simpa using congrArg List.length hlength
  obtain ⟨rfl, rfl⟩ := List.append_inj hrest hlengths
  exact ⟨rfl, rfl⟩

theorem hexText_injective : Function.Injective hexText :=
  fun _ _ h => bytesToHex_injective (List.append_cancel_left h)

/-- Keys are their own public halves. -/
def idealOracles : GovernanceOracles where
  sha256 _ := zeroDigest
  ed25519Verify sig message pub := .ok (sig = idealSign message pub)
  verifyBLSSignature publicKey message signature :=
    match hexToBytes (removeHexPrefix publicKey) with
    | .ok secret => signature = hexText (idealSign message secret)
    | .error _ => false
  aggregateSignatures signatures :=
    if signatures = [] then .error externalError
    else .ok ⟨[], signatures.map fun s => .ofInt s.2, [], true⟩
  numberString x := numberString (.finite x)

def idealSchemes : ApprovalSchemes idealOracles where
  ed25519Sign := idealSign
  ed25519PublicKey := id
  blsSign message secret := hexText (idealSign message secret)
  blsPublicKey := hexText
  ed25519_verify message key message' pub := by
    simp only [idealOracles, Except.ok.injEq, decide_eq_true_eq, id_eq]
    exact ⟨fun h => idealSign_inj h, fun ⟨hmessage, hpub⟩ => by rw [hmessage, hpub]⟩
  bls_verify message secret message' secret' := by
    simp only [idealOracles, hexToBytes_hexText, decide_eq_true_eq, hexText_injective.eq_iff]
    exact ⟨fun h => idealSign_inj h, fun ⟨hmessage, hkey⟩ => by rw [hmessage, hkey]⟩
  aggregates signatures hne _ := ⟨_, if_neg hne⟩

/-- Two registrations with the drawn BLS secrets. -/
def registrations (adminSecret treasurySecret : Bytes) : List Registration :=
  [⟨.ADMIN, js "0xaa", [1], js "m/0", adminSecret⟩,
    ⟨.TREASURY, js "0xbb", [2], js "m/1", treasurySecret⟩]

def twoHolders : List Holder := [⟨.ADMIN, [0xaa], [1], js "m/0"⟩, ⟨.TREASURY, [0xbb], [2], js "m/1"⟩]

def registeredEngine (adminSecret treasurySecret : Bytes) : GovernanceState :=
  (registrations adminSecret treasurySecret).foldl (register idealSchemes) (newEngine testPolicies)

/-- A fresh approval in that engine. -/
def openedEngine (adminSecret treasurySecret : Bytes) : GovernanceState :=
  (initiateApproval idealOracles (registeredEngine adminSecret treasurySecret) (js "tx") 1000
    (js "policy") fun _ => 0).1

def freshApproval : PendingApproval where
  approvalId := approvalIdOf idealOracles (js "tx") 1000 0
  transactionHash := js "tx"
  amountUSD := 1000
  tier := testTier
  approvals := .empty
  timeLockEnvelope := none
  status := .PENDING
  createdAt := 0
  expiresAt := 86400000

theorem initiate_freshApproval (adminSecret treasurySecret : Bytes) :
    initiateApproval idealOracles (registeredEngine adminSecret treasurySecret) (js "tx") 1000
      (js "policy") (fun _ => 0) =
      (openedEngine adminSecret treasurySecret, .ok freshApproval) :=
  Prod.ext rfl (by with_unfolding_all rfl)

theorem registeredBy_registrations (adminSecret treasurySecret : Bytes) :
    RegisteredBy idealSchemes (registrations adminSecret treasurySecret)
      (registeredEngine adminSecret treasurySecret) := rfl

/-- The secrets that the holders compute: their seeds. -/
def seedKeys (seed : Bytes) (_ : JSString) : Set Bytes := {seed}

/-- Holders of the required roles whose registered BLS keys nobody can compute from a seed
cannot complete the approval. -/
theorem drawn_keys_cannot_complete :
    (∀ h ∈ twoHolders, h.role ∈ freshApproval.tier.requiredRoles) ∧
    freshApproval.tier.thresholdCount = twoHolders.length ∧
    (twoHolders.map fun h => idealSchemes.ed25519PublicKey h.privateKey).Nodup ∧
    RegisteredBy idealSchemes (registrations [7] [8]) (registeredEngine [7] [8]) ∧
    initiateApproval idealOracles (registeredEngine [7] [8]) (js "tx") 1000 (js "policy")
      (fun _ => 0) = (openedEngine [7] [8], .ok freshApproval) ∧
    ¬CanComplete idealSchemes seedKeys (openedEngine [7] [8]) freshApproval twoHolders := by
  obtain ⟨⟨ref, hstart⟩, hroles, hempty, hpending⟩ :=
    initiateApproval_lookup (initiate_freshApproval [7] [8]) (by decide)
  refine ⟨by decide, by decide, by decide, rfl, initiate_freshApproval [7] [8], fun hcomplete => ?_⟩
  obtain ⟨-, hknows⟩ := knowsKey_of_canComplete
    (enrolled_congr hroles (registeredBy_registrations [7] [8]).enrolled) hstart hempty hpending
    (by decide) hcomplete
  obtain ⟨e, he, secret, rfl, hkey⟩ := hknows _ List.mem_cons_self
  have hregistered : (holderEntry idealSchemes (openedEngine [7] [8])
      ⟨.ADMIN, [0xaa], [1], js "m/0"⟩).map (fun e => e.2.blsPublicKey) = some (hexText [7]) := by
    with_unfolding_all rfl
  rw [he] at hregistered
  have hsame : hexText [1] = hexText [7] := hkey.symm.trans (Option.some.inj hregistered)
  exact absurd hsame (by decide)

/-- Drawn secrets that happen to be the seeds are enough. -/
theorem approval_completes_seeds :
    CanComplete idealSchemes seedKeys (openedEngine [1] [2]) freshApproval twoHolders := by
  refine (approval_completes_iff idealSchemes seedKeys (registeredBy_registrations [1] [2])
    (initiate_freshApproval [1] [2]) (by decide) twoHolders (by decide) (by decide)).mpr
    ⟨by simp [twoHolders], ?_⟩
  intro h hh
  simp only [twoHolders, List.mem_cons, List.not_mem_nil, or_false] at hh
  rcases hh with rfl | rfl
  · exact ⟨_, by with_unfolding_all rfl, [1], rfl, rfl⟩
  · exact ⟨_, by with_unfolding_all rfl, [2], rfl, rfl⟩

end BioFire.Governance
