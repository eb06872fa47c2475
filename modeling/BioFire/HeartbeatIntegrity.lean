import BioFire.Heartbeat
import BioFire.Separators

/-!
# The integrity of heartbeats (`src/lib/licensing/heartbeat.ts`)

The text under the HMAC joins five fields with colons, and `TextEncoder` writes lone
surrogates as U+FFFD. What the verifier accepts is an issued text, cut into fields again.

* `accepted_fields`: the fields of an accepted token, when the issued ones have no colon;
* `heartbeat_integrity_iff`: which issued tokens are the only ones that are accepted.
-/

namespace BioFire.Licensing

open Separators

variable (oracles : HeartbeatOracles)

/-- The arguments of a call of `generateHeartbeat`, and its time. -/
structure HeartbeatCall where
  nodeId : JSString
  hwFingerprint : JSString
  usageCounters : List (JSString × JSNumber)
  now : { time : ℤ // InDateRange time }

def HeartbeatCall.token (secretKey : Bytes) (call : HeartbeatCall) : HeartbeatToken :=
  generateHeartbeat oracles call.nodeId call.hwFingerprint call.usageCounters secretKey call.now

/-- The bytes under the HMAC of a token. -/
def HeartbeatToken.data (token : HeartbeatToken) : Bytes :=
  textEncode (tokenText token.epoch token.nodeId token.hwFingerprint token.usageHash
    token.timestamp)

/-- The tag that the verifier computes. -/
def HeartbeatToken.expected (secretKey : Bytes) (token : HeartbeatToken) : JSString :=
  js "0x" ++ bytesToHex (oracles.hmac secretKey token.data).1

/-- An ideal HMAC, for one token: its tag is right only when the same bytes were issued. -/
def Unforged (secretKey : Bytes) (issued : List HeartbeatToken) (token : HeartbeatToken) : Prop :=
  token.token = token.expected oracles secretKey → ∃ t ∈ issued, t.data = token.data

/-- The fields other than the tag are the same. -/
structure SameFields (token token' : HeartbeatToken) : Prop where
  epoch : token.epoch = token'.epoch
  nodeId : token.nodeId = token'.nodeId
  hwFingerprint : token.hwFingerprint = token'.hwFingerprint
  usageHash : token.usageHash = token'.usageHash
  timestamp : token.timestamp = token'.timestamp

/-- Every token that the verifier accepts was issued. -/
def OnlyIssued (secretKey : Bytes) (issued : List HeartbeatToken) : Prop :=
  ∀ token expectedHwFingerprint now, InDateRange now → Unforged oracles secretKey issued token →
    (verifyHeartbeat oracles token secretKey expectedHwFingerprint now).valid = true →
    ∃ t ∈ issued, SameFields token t

/-- No node id and no fingerprint has a colon, and where two of them have the same bytes,
both were issued. -/
def Unambiguous (issued : List HeartbeatToken) : Prop :=
  ∀ t ∈ issued, 58 ∉ t.nodeId ∧ 58 ∉ t.hwFingerprint ∧
    ∀ nodeId hwFingerprint, textEncode nodeId = textEncode t.nodeId →
      textEncode hwFingerprint = textEncode t.hwFingerprint →
      ∃ t' ∈ issued, SameFields { t with nodeId, hwFingerprint } t'

/-! ## The verifier -/

theorem verifyHeartbeat_valid_iff {token : HeartbeatToken} {secretKey : Bytes}
    {expectedHwFingerprint : JSString} {now : ℤ} :
    (verifyHeartbeat oracles token secretKey expectedHwFingerprint now).valid = true ↔
      ¬(JSNumber.finite 2).lt ((epochAt (.ofInt now)).sub token.epoch).abs ∧
        token.hwFingerprint = expectedHwFingerprint ∧
        token.token = token.expected oracles secretKey := by
  simp only [verifyHeartbeat]
  split
  next h => exact iff_of_false Bool.false_ne_true fun hvalid => absurd h hvalid.1
  next h =>
    split
    next hne => exact iff_of_false Bool.false_ne_true fun hvalid => absurd hvalid.2.1 hne
    next heq =>
      rw [not_not] at heq
      split
      next hne => exact iff_of_false Bool.false_ne_true fun hvalid => absurd hvalid.2.2 hne
      next htag =>
        rw [not_not] at htag
        exact ⟨fun _ => ⟨h, heq, htag⟩, fun _ => rfl⟩

variable {oracles}

/-- A token is accepted at the time of its call, and so is every other token with the
same epoch, bytes and tag, on the hardware that it names. -/
theorem accepted_of_data {secretKey : Bytes} {call : HeartbeatCall} {token : HeartbeatToken}
    (hepoch : token.epoch = (call.token oracles secretKey).epoch)
    (hdata : token.data = (call.token oracles secretKey).data)
    (htoken : token.token = (call.token oracles secretKey).token) :
    (verifyHeartbeat oracles token secretKey token.hwFingerprint call.now).valid = true := by
  have hissued : (verifyHeartbeat oracles (call.token oracles secretKey) secretKey
      call.hwFingerprint call.now).valid = true := by
    rw [HeartbeatCall.token, verifyHeartbeat_generated oracles call.nodeId call.hwFingerprint
      call.usageCounters secretKey call.now.2 call.now.2 le_rfl, sub_self, if_pos (by decide)]
  rw [verifyHeartbeat_valid_iff] at hissued ⊢
  obtain ⟨hfresh, -, -⟩ := hissued
  refine ⟨hepoch ▸ hfresh, rfl, ?_⟩
  rw [htoken, HeartbeatToken.expected, hdata]
  rfl

/-! ## The fields of a text -/

theorem scalars_colon (a b : JSString) :
    scalars (a ++ js ":" ++ b) = scalars a ++ 58 :: scalars b := by
  rw [append_colon, scalars_append (by decide)]
  cases b <;> rfl

theorem scalars_tokenText (epoch : JSNumber) (nodeId hwFingerprint usageHash : JSString)
    (timestamp : JSNumber) : scalars (tokenText epoch nodeId hwFingerprint usageHash timestamp) =
      scalars (numberString epoch) ++ 58 :: (scalars nodeId ++ 58 :: (scalars hwFingerprint ++
        58 :: scalars usageHash)) ++ 58 :: scalars (numberString timestamp) := by
  rw [tokenText, scalars_colon, scalars_colon, scalars_colon, scalars_colon]
  simp only [List.append_assoc, List.cons_append]

theorem colon_not_mem_scalars {s : JSString} (h : 58 ∉ s) : 58 ∉ scalars s :=
  fun hmem => h ((mem_scalars_ascii (by decide : (58 : UInt16) < 128) s).mp hmem)

variable (oracles) in
theorem usageHash_facts (secretKey : Bytes) (call : HeartbeatCall) :
    ∀ c ∈ (call.token oracles secretKey).usageHash, c < 128 ∧ c ≠ 58 := by
  intro c hc
  rcases List.mem_append.mp hc with hc | hc
  · have hmark : (js "0x").all (fun c => c < 128 && c != 58) = true := by decide
    have hunit := List.all_eq_true.mp hmark c hc
    rwa [Bool.and_eq_true, decide_eq_true_iff, bne_iff_ne] at hunit
  · have hdigit : ∀ i : Fin 16, hexDigit i < 128 ∧ hexDigit i ≠ 58 := by decide
    obtain ⟨i, rfl⟩ := exists_hexDigit_of_mem hc
    exact hdigit i

/-- **The fields of an accepted token.** A token with the bytes of an issued one has its
fields, up to what the encoder does with lone surrogates, when that one has no colon. -/
theorem accepted_fields {secretKey : Bytes} {call : HeartbeatCall} {token : HeartbeatToken}
    (hnode : 58 ∉ call.nodeId) (hfingerprint : 58 ∉ call.hwFingerprint)
    (hdata : token.data = (call.token oracles secretKey).data) :
    token.epoch = (call.token oracles secretKey).epoch ∧
      textEncode token.nodeId = textEncode call.nodeId ∧
      textEncode token.hwFingerprint = textEncode call.hwFingerprint ∧
      token.usageHash = (call.token oracles secretKey).usageHash ∧
      token.timestamp = (call.token oracles secretKey).timestamp := by
  have husage := usageHash_facts oracles secretKey call
  have hascii : ∀ x : JSNumber, 58 ∉ scalars (numberString x) :=
    fun x => colon_not_mem_scalars (colon_not_mem_numberString x)
  rw [HeartbeatToken.data, HeartbeatToken.data, textEncode_inj, scalars_tokenText,
    scalars_tokenText] at hdata
  obtain ⟨hfront, htimestamp⟩ := append_cons_inj_last (hascii _) (hascii _) hdata
  obtain ⟨hepoch, hfields⟩ := append_cons_inj (hascii _) (hascii _) hfront
  obtain ⟨hnodeId, hhw, hhash⟩ := append_cons_inj_three (colon_not_mem_scalars hnode)
    (colon_not_mem_scalars hfingerprint) (colon_not_mem_scalars fun h => (husage _ h).2 rfl)
    hfields.symm
  have hnumber : ∀ {x y : JSNumber},
      scalars (numberString x) = scalars (numberString y) → x = y := by
    intro x y hscalars
    exact numberString_injective (textEncode_ascii_inj (ascii_numberString x)
      (ascii_numberString y) (textEncode_inj.mpr hscalars))
  refine ⟨hnumber hepoch, textEncode_inj.mpr hnodeId.symm, textEncode_inj.mpr hhw.symm, ?_,
    hnumber htimestamp⟩
  refine textEncode_ascii_inj (ascii_of_scalars ?_) (fun c hc => (husage c hc).1)
    (textEncode_inj.mpr hhash.symm)
  rw [← hhash, scalars_ascii fun c hc => (husage c hc).1, List.forall_mem_map]
  exact fun c hc => UInt16.lt_iff_toNat_lt.mp (husage c hc).1

/-! ## Integrity -/

theorem data_tokenText {token token' : HeartbeatToken}
    (h : tokenText token.epoch token.nodeId token.hwFingerprint token.usageHash token.timestamp =
      tokenText token'.epoch token'.nodeId token'.hwFingerprint token'.usageHash token'.timestamp) :
    token.data = token'.data :=
  congrArg textEncode h

/-- What is accepted beside an issued token, when only issued ones are. -/
theorem OnlyIssued.sameFields {secretKey : Bytes} {calls : List HeartbeatCall}
    (h : OnlyIssued oracles secretKey (calls.map (·.token oracles secretKey)))
    {issued token : HeartbeatToken} (hissued : issued ∈ calls.map (·.token oracles secretKey))
    (hepoch : token.epoch = issued.epoch) (hdata : token.data = issued.data)
    (htoken : token.token = issued.token) :
    ∃ t ∈ calls.map (·.token oracles secretKey), SameFields token t := by
  have hunforged : Unforged oracles secretKey (calls.map (·.token oracles secretKey)) token :=
    fun _ => ⟨issued, hissued, hdata.symm⟩
  obtain ⟨call, -, rfl⟩ := List.mem_map.mp hissued
  exact h token token.hwFingerprint call.now call.now.2 hunforged
    (accepted_of_data hepoch hdata htoken)

theorem not_sameFields_of_colon {secretKey : Bytes} {calls : List HeartbeatCall}
    {token t : HeartbeatToken} (h : 58 ∈ token.usageHash)
    (ht : t ∈ calls.map (·.token oracles secretKey)) : ¬ SameFields token t := by
  obtain ⟨call, -, rfl⟩ := List.mem_map.mp ht
  exact fun hsame => (usageHash_facts oracles secretKey call 58 (hsame.usageHash ▸ h)).2 rfl

/-- A colon in a node id or a fingerprint: the fields behind it are cut elsewhere. -/
theorem exists_shifted {issued : HeartbeatToken}
    (h : 58 ∈ issued.nodeId ∨ 58 ∈ issued.hwFingerprint) :
    ∃ token : HeartbeatToken, token.epoch = issued.epoch ∧ token.data = issued.data ∧
      token.token = issued.token ∧ 58 ∈ token.usageHash := by
  have hcolon : js ":" = [58] := by decide
  rcases h with h | h
  · obtain ⟨front, rest, hsplit⟩ := List.append_of_mem h
    refine ⟨{ issued with
      nodeId := front
      hwFingerprint := rest
      usageHash := issued.hwFingerprint ++ js ":" ++ issued.usageHash },
      rfl, data_tokenText ?_, rfl, by simp [hcolon]⟩
    simp [tokenText, hsplit, hcolon]
  · obtain ⟨front, rest, hsplit⟩ := List.append_of_mem h
    refine ⟨{ issued with
      hwFingerprint := front
      usageHash := rest ++ js ":" ++ issued.usageHash },
      rfl, data_tokenText ?_, rfl, by simp [hcolon]⟩
    simp [tokenText, hsplit, hcolon]

/-- Issued node ids and fingerprints have no colon, when only issued tokens are accepted. -/
theorem OnlyIssued.no_colon {secretKey : Bytes} {calls : List HeartbeatCall}
    (h : OnlyIssued oracles secretKey (calls.map (·.token oracles secretKey)))
    {issued : HeartbeatToken} (hissued : issued ∈ calls.map (·.token oracles secretKey)) :
    58 ∉ issued.nodeId ∧ 58 ∉ issued.hwFingerprint := by
  rw [← not_or]
  intro hcolon
  obtain ⟨token, hepoch, hdata, htoken, husage⟩ := exists_shifted hcolon
  obtain ⟨t, ht, hsame⟩ := h.sameFields hissued hepoch hdata htoken
  exact not_sameFields_of_colon husage ht hsame

/-- **The integrity of heartbeats**, with an ideal HMAC: only issued tokens are accepted
exactly when no issued node id or fingerprint has a colon, and all that share their bytes
were issued. -/
theorem heartbeat_integrity_iff (secretKey : Bytes) (calls : List HeartbeatCall) :
    OnlyIssued oracles secretKey (calls.map (·.token oracles secretKey)) ↔
      Unambiguous (calls.map (·.token oracles secretKey)) := by
  constructor
  · intro h t ht
    refine ⟨(h.no_colon ht).1, (h.no_colon ht).2, fun nodeId hwFingerprint hnode hhw => ?_⟩
    refine h.sameFields ht rfl ?_ rfl
    simp only [HeartbeatToken.data, textEncode_inj, scalars_tokenText]
    rw [textEncode_inj.mp hnode, textEncode_inj.mp hhw]
  · intro h token expectedHwFingerprint now _ hunforged hvalid
    obtain ⟨t, ht, hdata⟩ := hunforged ((verifyHeartbeat_valid_iff oracles).mp hvalid).2.2
    obtain ⟨hnode, hhw, hclosed⟩ := h t ht
    obtain ⟨call, -, rfl⟩ := List.mem_map.mp ht
    obtain ⟨hepoch, hnodeId, hfingerprint, husage, htimestamp⟩ :=
      accepted_fields hnode hhw hdata.symm
    obtain ⟨t', ht', hsame⟩ := hclosed token.nodeId token.hwFingerprint hnodeId hfingerprint
    exact ⟨t', ht', hepoch.trans hsame.epoch, hsame.nodeId, hsame.hwFingerprint,
      husage.trans hsame.usageHash, htimestamp.trans hsame.timestamp⟩

/-- A node whose name has a colon. -/
def colonCall : HeartbeatCall where
  nodeId := js "eu:1"
  hwFingerprint := js "0xab"
  usageCounters := [(js "signatures", .finite 3)]
  now := ⟨1700000000000, by norm_num [InDateRange]⟩

/-- The token of `eu:1` is accepted for the node `eu` on the hardware `1`. -/
theorem shifted_token_accepted : ¬ OnlyIssued sampleHeartbeatOracles [7]
    ([colonCall].map (·.token sampleHeartbeatOracles [7])) := by
  intro h
  have hcolon := (h.no_colon (List.mem_singleton_self _)).1
  have hmem : 58 ∈ js "eu:1" := by decide
  exact hcolon hmem

end BioFire.Licensing
