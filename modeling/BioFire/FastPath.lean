import BioFire.BigIntText
import BioFire.PartialSignature
import BioFire.PreComputation

/-!
# Online and direct signing

A tuple that `generateTuple` of `src/lib/protocol/signing_worker.ts` makes for a nonce, after its
way through `ingestBatch` and the queue of `pre_computation_engine.ts`, gives the signature that
`generatePartialSignature` of `src/lib/crypto/secp256k1.ts` computes with that nonce. The drawn
nonce and the clock are data of the call, `compress` is `toRawBytes(true)`.

* `queuedTuple_generateTuple`: what the queue stores of a tuple;
* `stored_run`: a stored tuple stays as it is until it is used or the engine stops;
* `fast_path_eq_slow_path`: the two signatures.
-/

namespace BioFire.PreComputation

open Runs Secp256k1

variable {G : Type} [AddCommGroup G]

/-! ## The worker -/

section Worker

variable [DecidableEq G]

def generateTuple (curve : Curve G) (compress : G → Bytes) (sha256 : Bytes → Digest)
    (k now timestamp : ℤ) : Except JSError PreSignatureTuple := do
  let gammaPoint ← curve.multiply curve.BASE k
  let gamma := js "0x" ++ bytesToHex (← curve.toRawBytes gammaPoint)
  let chi := js "0x" ++ bytesToHex (sha256 (compress gammaPoint)).1
  let idInput := textEncode (toString16 k ++ js ":" ++ gamma ++ js ":" ++ chi ++ js ":" ++
    bigintString now)
  let id := js "0x" ++ bytesToHex ((sha256 idInput).1.take 16)
  let kHex := js "0x" ++ padStart64 (toString16 k)
  return ⟨kHex, gamma, chi, id, timestamp⟩

theorem fromHex_mark (s : JSString) :
    SecureBuffer.fromHex (js "0x" ++ s) = .ofBytes (parsedBytes s) := by
  rw [SecureBuffer.fromHex, if_pos (List.isPrefixOf_iff_prefix.mpr (List.prefix_append _ _))]
  rfl

/-- **What the queue stores** of a tuple: the nonce and the bytes of its point. -/
theorem queuedTuple_generateTuple (curve : Curve G) (compress : G → Bytes)
    (sha256 : Bytes → Digest) (now timestamp : ℤ) {k : ℤ} (horder : curve.n ≤ 16 ^ 64)
    (hk₁ : 1 ≤ k) (hk : k < curve.n) : ∃ raw tuple,
      generateTuple curve compress sha256 k now timestamp = .ok raw ∧
      queuedTuple raw = .ok tuple ∧ tuple.k = .ofInt k ∧
      tuple.gamma = .ofBytes (curve.encode (k • curve.BASE)) := by
  have hsize : k < 16 ^ 64 := hk.trans_le (by exact_mod_cast horder)
  obtain ⟨bs, hhex, hvalue⟩ := padStart64_eq_bytesToHex (by omega) hsize
  have hnonce : SecureBigInt.fromSecureBuffer
      (SecureBuffer.fromHex (js "0x" ++ padStart64 (toString16 k))) = .ok (.ofInt k) := by
    rw [hhex, fromHex_mark, parsedBytes_bytesToHex, ← hvalue]
    rfl
  have hpoint : SecureBuffer.fromHex (js "0x" ++ bytesToHex (curve.encode (k • curve.BASE))) =
      .ofBytes (curve.encode (k • curve.BASE)) := by
    rw [fromHex_mark, parsedBytes_bytesToHex]
  have hraw : ∃ chi id, generateTuple curve compress sha256 k now timestamp =
      .ok ⟨js "0x" ++ padStart64 (toString16 k),
        js "0x" ++ bytesToHex (curve.encode (k • curve.BASE)), chi, id, timestamp⟩ := by
    simp only [generateTuple, curve.multiply_ok hk₁ hk,
      curve.toRawBytes_ok (zsmul_BASE_ne_zero hk₁ hk), bind, Except.bind]
    exact ⟨_, _, rfl⟩
  obtain ⟨chi, id, hraw⟩ := hraw
  refine ⟨_, ⟨id, .ofInt k, _, SecureBuffer.fromHex chi, timestamp⟩, hraw, ?_, rfl, rfl⟩
  simp only [queuedTuple, hnonce, hpoint, bind, Except.bind]
  rfl

end Worker

/-! ## The queue -/

/-- The event leaves the tuple `ref` as it is. -/
def Spares (ref : ℕ) (event : EngineEvent) : Prop :=
  event ≠ .stopFinished ∧ ∀ messageHash privateShare,
    event ≠ .executeOnlineSign messageHash privateShare ref

variable {curve : Curve G}

variable (curve) in
/-- One event that spares a tuple leaves it where it is, behind the older ones. -/
theorem getElem?_step (state : EngineState) {event : EngineEvent} {ref : ℕ}
    (h : Spares ref event) : ∃ new,
      List.Forall₂ (fun raw tuple => queuedTuple raw = .ok tuple) (ingestedBy state event) new ∧
      (step curve state event).tuples[ref]? = (state.tuples ++ new)[ref]? := by
  have hsame : ∀ {tuples : List QueuedTuple}, tuples[ref]? = state.tuples[ref]? →
      ∃ new, List.Forall₂ (fun raw tuple => queuedTuple raw = .ok tuple) [] new ∧
        tuples[ref]? = (state.tuples ++ new)[ref]? := by
    intro tuples htuples
    exact ⟨[], .nil, by rw [List.append_nil, htuples]⟩
  cases event with
  | start => exact hsame rfl
  | stop => exact hsame rfl
  | stopFinished => exact absurd rfl h.1
  | consumeTuple =>
    simp only [step, PreComputation.consumeTuple]
    split <;> exact hsame rfl
  | executeOnlineSign messageHash privateShare ref' =>
    have hne : ref' ≠ ref := by
      rintro rfl
      exact h.2 _ _ rfl
    simp only [step, PreComputation.executeOnlineSign]
    split
    · split
      · exact hsame rfl
      · exact hsame (List.getElem?_set_ne hne)
    · exact hsame rfl
  | ingestBatch batch =>
    obtain ⟨new, hall, htuples⟩ := ingestBatch_tuples curve state batch
    exact ⟨new, hall, by rw [htuples]⟩

/-- The tuple `ref` is what the queue stores of the ingested one. -/
def Stored (ref : ℕ) (s : LoggedEngine) : Prop :=
  ∀ raw, s.ingested[ref]? = some raw →
    ∃ tuple, queuedTuple raw = .ok tuple ∧ s.engine.tuples[ref]? = some tuple

variable (curve) in
/-- **A stored tuple** stays as it is in every run that spares it. -/
theorem stored_run (config : PreComputationConfig) {events : List EngineEvent} {ref : ℕ}
    (h : ∀ event ∈ events, Spares ref event) :
    Stored ref (run (loggedStep curve) (newLog config) events) := by
  refine run_induction (p := fun _ event => Spares ref event) (fun _ => Stored ref) ?_ ?_ ?_
  · intro raw hraw
    simp [newLog] at hraw
  · intro past event hstored hevent raw hraw
    obtain ⟨new, hall, hget⟩ := getElem?_step curve
      (run (loggedStep curve) (newLog config) past).engine hevent
    have hlength := (nonceInvariant_run curve config past).length
    rw [loggedStep, List.getElem?_append] at hraw
    rw [loggedStep]
    dsimp only
    rw [hget, List.getElem?_append, hlength]
    split at hraw
    next hold =>
      rw [if_pos hold]
      exact hstored raw hraw
    next hnew =>
      rw [if_neg hnew]
      obtain ⟨hlt, hval⟩ := List.getElem?_eq_some_iff.mp hraw
      have hlt' := hall.length_eq ▸ hlt
      refine ⟨_, ?_, List.getElem?_eq_getElem hlt'⟩
      have hmatch := hall.get hlt hlt'
      simp only [List.get_eq_getElem] at hmatch
      rw [← hval, hmatch]
  · rintro past event rest rfl
    exact h event (by simp)

/-! ## Signing -/

variable [DecidableEq G]

/-- The result of `executeOnlineSign` with the numbers of a partial signature. -/
def onlineForm (signature : PartialSignature) : OnlineSignature :=
  let rHex := js "0x" ++ padStart64 (toString16 signature.r)
  let sHex := js "0x" ++ padStart64 (toString16 signature.s)
  ⟨rHex, sHex, rHex ++ padStart64 (toString16 signature.s)⟩

/-- The arithmetic of `executeOnlineSign` on the nonce and its point. -/
theorem onlineSignature_eq {k x : ℤ} {messageHash : Bytes} {tuple : QueuedTuple} (hk₁ : 1 ≤ k)
    (hk : k < curve.n) (hhash : messageHash ≠ []) (hnonce : tuple.k = .ofInt k)
    (hgamma : tuple.gamma = .ofBytes (curve.encode (k • curve.BASE))) :
    ∃ signature, generatePartialSignature curve x messageHash k = .ok signature ∧
      onlineSignature curve messageHash (.ofInt x) tuple = .ok (onlineForm signature) := by
  obtain ⟨kInv, hkInv, hrun⟩ := generatePartialSignature_eq (d := x) hk₁ hk hhash
  refine ⟨_, hrun, ?_⟩
  have hvalue : tuple.k.value = .ok k := by rw [hnonce]; rfl
  have hbytes : tuple.gamma.bytes = .ok (curve.encode (k • curve.BASE)) := by rw [hgamma]; rfl
  have hshare : (SecureBigInt.ofInt x).value = .ok x := rfl
  simp only [onlineSignature, hvalue, hbytes, hshare, hkInv, bytesToBigInt, if_neg hhash,
    curve.fromHex_encode (zsmul_BASE_ne_zero hk₁ hk), bind, Except.bind]
  rfl

/-- **Fast path.** The tuple of a nonce, ingested in any run, handed out and not used before,
gives the signature that `generatePartialSignature` computes with that nonce, in 64 digits. -/
theorem fast_path_eq_slow_path (curve : Curve G) (compress : G → Bytes) (sha256 : Bytes → Digest)
    (horder : curve.n ≤ 16 ^ 64) (k x : ℤ) (hk : 1 ≤ k ∧ k < curve.n) (messageHash : Bytes)
    (hhash : messageHash ≠ []) (now timestamp : ℤ) :
    ∃ raw signature, generateTuple curve compress sha256 k now timestamp = .ok raw ∧
      generatePartialSignature curve x messageHash k = .ok signature ∧
      (padStart64 (toString16 signature.r)).length = 64 ∧
      (padStart64 (toString16 signature.s)).length = 64 ∧
      ∀ config events ref, (∀ event ∈ events, Spares ref event) →
        let s := run (loggedStep curve) (newLog config) events
        s.ingested[ref]? = some raw → ref ∈ s.engine.handedOut →
        (executeOnlineSign curve s.engine messageHash (.ofInt x) ref).2 =
          some (.ok (onlineForm signature)) := by
  obtain ⟨hk₁, hk⟩ := hk
  obtain ⟨raw, tuple, hraw, htuple, hnonce, hgamma⟩ :=
    queuedTuple_generateTuple curve compress sha256 now timestamp horder hk₁ hk
  obtain ⟨signature, hsigned, honline⟩ := onlineSignature_eq (x := x) hk₁ hk hhash hnonce hgamma
  obtain ⟨signature', hsame, hr, ⟨hs₀, hs⟩, -⟩ :=
    generatePartialSignature_ok (d := x) hk₁ hk hhash
  obtain rfl : signature' = signature := Except.ok.inj (hsame.symm.trans hsigned)
  have hsize : (curve.n : ℤ) ≤ 16 ^ 64 := by exact_mod_cast horder
  have hr₀ : 0 ≤ signature'.r ∧ signature'.r < curve.n := by
    rw [hr]
    exact ⟨Int.emod_nonneg _ order_pos.ne', Int.emod_lt_of_pos _ order_pos⟩
  refine ⟨raw, signature', hraw, hsigned, length_padStart64 hr₀.1 (hr₀.2.trans_le hsize),
    length_padStart64 hs₀ (hs.trans_le hsize), ?_⟩
  intro config events ref hspares s hingested hhanded
  obtain ⟨tuple', htuple', hget⟩ := stored_run curve config hspares raw hingested
  obtain rfl := Except.ok.inj (htuple'.symm.trans htuple)
  rw [executeOnlineSign, if_pos hhanded, hget, ← honline]

/-- One tuple arrives and is handed out. -/
def oneTuple (raw : PreSignatureTuple) : List EngineEvent :=
  [.start, .ingestBatch [raw], .consumeTuple]

/-- On the group of order 31: the nonce 3 and the share 7. -/
theorem fast_path_eq_slow_path_three :
    ∃ raw signature,
      generateTuple Curve.curve43 (fun _ => [2]) (fun _ => zeroDigest) 3 0 0 = .ok raw ∧
      generatePartialSignature Curve.curve43 7 [1] 3 = .ok signature ∧
      (executeOnlineSign Curve.curve43
        (run (loggedStep Curve.curve43) (newLog ⟨.ofInt 5000⟩) (oneTuple raw)).engine [1]
        (.ofInt 7) 0).2 = some (.ok (onlineForm signature)) := by
  obtain ⟨raw, signature, hraw, hsigned, -, -, hfast⟩ := fast_path_eq_slow_path Curve.curve43
    (fun _ => [2]) (fun _ => zeroDigest) (by decide) 3 7 (by decide) [1] (by decide) 0 0
  refine ⟨raw, signature, hraw, hsigned, hfast ⟨.ofInt 5000⟩ (oneTuple raw) 0 ?_ rfl ?_⟩
  · intro event hevent
    rcases event <;> simp [oneTuple] at hevent <;> exact ⟨nofun, fun _ _ => nofun⟩
  · exact List.mem_singleton_self 0

end BioFire.PreComputation
