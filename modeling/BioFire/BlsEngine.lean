import BioFire.BinarySerializer
import BioFire.SecureBuffer
import BioFire.SecureRandom
import Mathlib.Algebra.BigOperators.Group.List.Lemmas
import Mathlib.Algebra.Group.Hom.Instances
import Mathlib.Data.ZMod.Basic

/-!
# Aggregated signatures (`src/lib/governance/bls/bls_engine.ts`)

The library has public keys in the first group and signatures in the second. The two loops of the
engine decode them in the other group.

* `verify_aggregate`: what the library verifies, sums of keys and of signatures in their groups;
* `own_groups_verify`: loops that decode in the right groups compute such sums;
* `aggregatePublicKeys_error`, `aggregateSignatures_error`: the loops of the engine throw;
* `not_aggregationSound`: no aggregate is ever verified.
-/

namespace BioFire.Bls

/-- What is used of `bls12_381` in its default scheme: a bilinear pairing of two groups whose
encodings are not confused. -/
structure Library (G₁ G₂ GT : Type) [AddCommGroup G₁] [AddCommGroup G₂] [AddCommGroup GT] where
  /-- `CURVE.r` -/
  r : ℕ
  BASE : G₁
  /-- The point that a message is hashed to. -/
  hashToCurve : Bytes → G₂
  encode₁ : G₁ → Bytes
  encode₂ : G₂ → Bytes
  decode₁ : Bytes → Option G₁
  decode₂ : Bytes → Option G₂
  decode₁_encode₁ : ∀ P, decode₁ (encode₁ P) = some P
  decode₂_encode₂ : ∀ P, decode₂ (encode₂ P) = some P
  decode₁_encode₂ : ∀ P, decode₁ (encode₂ P) = none
  decode₂_encode₁ : ∀ P, decode₂ (encode₁ P) = none
  pairing : G₁ →+ G₂ →+ GT

/-- A point of the group, or an error of the library. -/
def fromBytes {G : Type} (decode : Bytes → Option G) (bytes : Bytes) : Except JSError G :=
  match decode bytes with
  | none => .error externalError
  | some P => .ok P

section

variable {G₁ G₂ GT : Type} [AddCommGroup G₁] [AddCommGroup G₂] [AddCommGroup GT]

namespace Library

variable (lib : Library G₁ G₂ GT)

def scalar (privateKey : Bytes) : Except JSError ℤ :=
  let k := bytesToBigInt privateKey
  if 1 ≤ k ∧ k < lib.r then .ok k else .error externalError

def getPublicKey (privateKey : Bytes) : Except JSError Bytes := do
  return lib.encode₁ ((← lib.scalar privateKey) • lib.BASE)

def sign (message privateKey : Bytes) : Except JSError Bytes := do
  return lib.encode₂ ((← lib.scalar privateKey) • lib.hashToCurve message)

def verify [DecidableEq GT] (signature message publicKey : Bytes) : Except JSError Bool := do
  let P ← fromBytes lib.decode₁ publicKey
  let S ← fromBytes lib.decode₂ signature
  return decide (lib.pairing P (lib.hashToCurve message) = lib.pairing lib.BASE S)

end Library

/-! ## The engine -/

structure BLSKeyPair where
  privateKey : SecureBuffer
  publicKey : JSString

structure BLSSignature where
  signature : JSString
  signerIndex : JSNumber

structure AggregatedApproval where
  aggregatedSignature : JSString
  signers : List JSNumber
  messageHash : JSString
  thresholdMet : Bool

/-- `ProjectivePoint.fromHex(text.replace('0x', ''))` -/
def pointOfText {G : Type} (decode : Bytes → Option G) (text : JSString) : Except JSError G := do
  fromBytes decode (← hexToBytes (removeHexPrefix text))

/-- The loops over points: the first one, and the others added to it. -/
def sumPoints {G : Type} [AddCommGroup G] (decode : Bytes → Option G) (texts : List JSString) :
    Except JSError (Option G) := do
  match ← texts.mapM (pointOfText decode) with
  | [] => return none
  | P :: points => return some (points.foldl (fun agg Q => agg + Q) P)

variable (lib : Library G₁ G₂ GT)

def generateBLSKeyPair (priv : Scalar lib.r) : Except JSError BLSKeyPair := do
  let privBytes := BinarySerializer.bigIntToBytes priv.1 32
  let pub ← lib.getPublicKey privBytes
  return ⟨.ofBytes privBytes, js "0x" ++ bytesToHex pub⟩

def signBLS (privateKey : SecureBuffer) (message : Bytes) : Except JSError BLSSignature := do
  let sig ← lib.sign message (← privateKey.bytes)
  return ⟨js "0x" ++ bytesToHex sig, .ofInt (-1)⟩

def aggregateSignatures (sha256 : Bytes → Digest) (signatures : List BLSSignature) :
    Except JSError AggregatedApproval :=
  if signatures.length = 0 then .error (plainError (js "Cannot aggregate empty signature set"))
  else do
    match ← sumPoints lib.decode₁ (signatures.map BLSSignature.signature) with
    -- not reached: there is a first signature
    | none => .error ⟨.TypeError, js "Cannot read properties of undefined (reading 'toRawBytes')"⟩
    | some agg =>
      return {
        aggregatedSignature := js "0x" ++ bytesToHex (lib.encode₁ agg)
        signers := signatures.map BLSSignature.signerIndex
        messageHash := js "0x" ++ bytesToHex (sha256 (textEncode (js "approval"))).1
        thresholdMet := 0 < signatures.length }

def aggregatePublicKeys (publicKeys : List JSString) : Except JSError JSString := do
  match ← sumPoints lib.decode₂ publicKeys with
  | none => .error ⟨.TypeError, js "Cannot read properties of undefined (reading 'toRawBytes')"⟩
  | some agg => return js "0x" ++ bytesToHex (lib.encode₂ agg)

def verifyAggregatedBLS [DecidableEq GT] (aggregatedPublicKey : JSString) (message : Bytes)
    (aggregatedSignature : JSString) : Bool :=
  let run : Except JSError Bool := do
    let apk ← hexToBytes (removeHexPrefix aggregatedPublicKey)
    let sig ← hexToBytes (removeHexPrefix aggregatedSignature)
    lib.verify sig message apk
  run.toOption.getD false

/-- The aggregates are built and verified, and the order of the signatures does not matter. -/
def AggregationSound [DecidableEq GT] (sha256 : Bytes → Digest) (keys : List BLSKeyPair)
    (message : Bytes) : Prop :=
  ∃ signatures approval aggregatedPublicKey,
    keys.mapM (fun key => signBLS lib key.privateKey message) = .ok signatures ∧
    aggregateSignatures lib sha256 signatures = .ok approval ∧
    aggregatePublicKeys lib (keys.map BLSKeyPair.publicKey) = .ok aggregatedPublicKey ∧
    verifyAggregatedBLS lib aggregatedPublicKey message approval.aggregatedSignature = true ∧
    ∀ signatures', signatures'.Perm signatures → ∃ approval',
      aggregateSignatures lib sha256 signatures' = .ok approval' ∧
        approval'.aggregatedSignature = approval.aggregatedSignature

/-! ## Sums in the right groups -/

variable {lib}

/-- **What the library verifies**: the sum of the signatures under the sum of the keys. -/
theorem verify_aggregate [DecidableEq GT] (ks : List ℤ) (message : Bytes) :
    lib.verify (lib.encode₂ (ks.map (· • lib.hashToCurve message)).sum) message
      (lib.encode₁ (ks.map (· • lib.BASE)).sum) = .ok true := by
  have hpairing : lib.pairing (ks.map (· • lib.BASE)).sum (lib.hashToCurve message) =
      lib.pairing lib.BASE (ks.map (· • lib.hashToCurve message)).sum := by
    induction ks with
    | nil => simp
    | cons k ks ih => simp [ih]
  simp [Library.verify, fromBytes, lib.decode₁_encode₁, lib.decode₂_encode₂, hpairing, bind,
    Except.bind, pure, Except.pure]

theorem pointOfText_encoded {G : Type} {decode : Bytes → Option G} {encode : G → Bytes}
    (h : ∀ P, decode (encode P) = some P) (P : G) :
    pointOfText decode (js "0x" ++ bytesToHex (encode P)) = .ok P := by
  simp [pointOfText, removeHexPrefix_append, hexToBytes_bytesToHex, fromBytes, h, bind, Except.bind]

/-- **A loop in the right group** computes the sum, whatever the order. -/
theorem sumPoints_encoded {G : Type} [AddCommGroup G] {decode : Bytes → Option G}
    {encode : G → Bytes} (h : ∀ P, decode (encode P) = some P) {points : List G}
    (hne : points ≠ []) :
    sumPoints decode (points.map fun P => js "0x" ++ bytesToHex (encode P)) =
      .ok (some points.sum) := by
  have hmap : ∀ points : List G, (points.map fun P => js "0x" ++ bytesToHex (encode P)).mapM
      (pointOfText decode) = .ok points := by
    intro points
    induction points with
    | nil => rfl
    | cons P points ih =>
      rw [List.map_cons, List.mapM_cons, pointOfText_encoded h, ih]
      rfl
  rw [sumPoints, hmap]
  cases points with
  | nil => exact absurd rfl hne
  | cons P points =>
    have hfold : ∀ (l : List G) (agg : G), l.foldl (fun agg Q => agg + Q) agg = agg + l.sum := by
      intro l
      induction l with
      | nil => simp
      | cons Q l ih => simp [ih, add_assoc]
    rw [List.sum_cons, ← hfold]
    rfl

/-- Loops that decode in the groups of the library build what it verifies. -/
theorem own_groups_verify [DecidableEq GT] {ks : List ℤ} (hne : ks ≠ []) (message : Bytes) :
    ∃ S P, sumPoints lib.decode₂ (ks.map fun k =>
        js "0x" ++ bytesToHex (lib.encode₂ (k • lib.hashToCurve message))) = .ok (some S) ∧
      sumPoints lib.decode₁ (ks.map fun k =>
        js "0x" ++ bytesToHex (lib.encode₁ (k • lib.BASE))) = .ok (some P) ∧
      lib.verify (lib.encode₂ S) message (lib.encode₁ P) = .ok true := by
  have hS := sumPoints_encoded lib.decode₂_encode₂
    (show ks.map (· • lib.hashToCurve message) ≠ [] by simpa using hne)
  have hP := sumPoints_encoded lib.decode₁_encode₁ (show ks.map (· • lib.BASE) ≠ [] by simpa using hne)
  rw [List.map_map] at hS hP
  exact ⟨_, _, hS, hP, verify_aggregate ks message⟩

/-! ## The loops of the engine -/

theorem pointOfText_other {G H : Type} {decode : Bytes → Option G} {encode : H → Bytes}
    (h : ∀ P, decode (encode P) = none) (P : H) :
    pointOfText decode (js "0x" ++ bytesToHex (encode P)) = .error externalError := by
  simp [pointOfText, removeHexPrefix_append, hexToBytes_bytesToHex, fromBytes, h, bind, Except.bind]

theorem sumPoints_other {G H : Type} [AddCommGroup G] {decode : Bytes → Option G}
    {encode : H → Bytes} (h : ∀ P, decode (encode P) = none) (P : H) (texts : List JSString) :
    sumPoints decode ((js "0x" ++ bytesToHex (encode P)) :: texts) = .error externalError := by
  rw [sumPoints, List.mapM_cons, pointOfText_other h]
  rfl

/-- The public key of a generated pair is a point of the first group. -/
theorem publicKey_of_generate {priv : Scalar lib.r} {key : BLSKeyPair}
    (h : generateBLSKeyPair lib priv = .ok key) :
    ∃ P, key.publicKey = js "0x" ++ bytesToHex (lib.encode₁ P) := by
  obtain ⟨pub, hpub, h⟩ := bind_eq_ok h
  obtain ⟨k, -, hpub⟩ := bind_eq_ok hpub
  cases hpub
  cases h
  exact ⟨k • lib.BASE, rfl⟩

theorem signature_of_signBLS {privateKey : SecureBuffer} {message : Bytes}
    {signature : BLSSignature} (h : signBLS lib privateKey message = .ok signature) :
    ∃ S, signature.signature = js "0x" ++ bytesToHex (lib.encode₂ S) := by
  obtain ⟨bytes, -, h⟩ := bind_eq_ok h
  obtain ⟨sig, hsig, h⟩ := bind_eq_ok h
  obtain ⟨k, -, hsig⟩ := bind_eq_ok hsig
  cases hsig
  cases h
  exact ⟨k • lib.hashToCurve message, rfl⟩

theorem signBLS_ok {priv : Scalar lib.r} {key : BLSKeyPair}
    (h : generateBLSKeyPair lib priv = .ok key) (message : Bytes) :
    ∃ signature, signBLS lib key.privateKey message = .ok signature := by
  obtain ⟨pub, hpub, h⟩ := bind_eq_ok h
  obtain ⟨k, hk, -⟩ := bind_eq_ok hpub
  cases h
  refine ⟨⟨js "0x" ++ bytesToHex (lib.encode₂ (k • lib.hashToCurve message)), .ofInt (-1)⟩, ?_⟩
  simp only [signBLS, SecureBuffer.bytes, SecureBuffer.ofBytes, Bool.false_eq_true, if_false,
    Library.sign, hk, bind, Except.bind, pure, Except.pure]

theorem aggregatePublicKeys_error {key : BLSKeyPair} {priv : Scalar lib.r}
    (h : generateBLSKeyPair lib priv = .ok key) (publicKeys : List JSString) :
    aggregatePublicKeys lib (key.publicKey :: publicKeys) = .error externalError := by
  obtain ⟨P, hP⟩ := publicKey_of_generate h
  rw [aggregatePublicKeys, hP, sumPoints_other lib.decode₂_encode₁]
  rfl

theorem aggregateSignatures_error (sha256 : Bytes → Digest) {privateKey : SecureBuffer}
    {message : Bytes} {signature : BLSSignature}
    (h : signBLS lib privateKey message = .ok signature) (signatures : List BLSSignature) :
    aggregateSignatures lib sha256 (signature :: signatures) = .error externalError := by
  obtain ⟨S, hS⟩ := signature_of_signBLS h
  rw [aggregateSignatures, if_neg (by simp), List.map_cons, hS,
    sumPoints_other lib.decode₁_encode₂]
  rfl

/-- **No aggregate is verified**: the public keys of generated pairs are not aggregated. -/
theorem not_aggregationSound [DecidableEq GT] (sha256 : Bytes → Digest) {keys : List BLSKeyPair}
    (hne : keys ≠ [])
    (hkeys : ∀ key ∈ keys, ∃ priv, generateBLSKeyPair lib priv = .ok key) (message : Bytes) :
    ¬AggregationSound lib sha256 keys message := by
  rintro ⟨-, -, aggregatedPublicKey, -, -, haggregate, -⟩
  cases keys with
  | nil => exact hne rfl
  | cons key keys =>
    obtain ⟨priv, hpriv⟩ := hkeys key List.mem_cons_self
    rw [List.map_cons, aggregatePublicKeys_error hpriv] at haggregate
    cases haggregate

end

/-! ## Residues as points -/

/-- Three copies of the residues modulo 31; the encodings name the group. -/
def residues : Library (ZMod 31) (ZMod 31) (ZMod 31) where
  r := 31
  BASE := 1
  hashToCurve message := (message.length : ZMod 31) + 1
  encode₁ P := [1, UInt8.ofNat P.val]
  encode₂ P := [2, UInt8.ofNat P.val]
  decode₁
    | [1, b] => if b.toNat < 31 then some (b.toNat : ZMod 31) else none
    | _ => none
  decode₂
    | [2, b] => if b.toNat < 31 then some (b.toNat : ZMod 31) else none
    | _ => none
  decode₁_encode₁ := by decide
  decode₂_encode₂ := by decide
  decode₁_encode₂ _ := rfl
  decode₂_encode₁ _ := rfl
  pairing := AddMonoidHom.mul

theorem residues_keys : ∃ alice bob,
    generateBLSKeyPair residues ⟨3, by decide⟩ = .ok alice ∧
      generateBLSKeyPair residues ⟨5, by decide⟩ = .ok bob := by
  have hthree : residues.scalar (BinarySerializer.bigIntToBytes 3 32) = .ok 3 := by decide
  have hfive : residues.scalar (BinarySerializer.bigIntToBytes 5 32) = .ok 5 := by decide
  simp only [generateBLSKeyPair, Library.getPublicKey, hthree, hfive]
  exact ⟨_, _, rfl, rfl⟩

theorem not_aggregationSound_two : ∃ alice bob,
    ¬AggregationSound residues (fun _ => zeroDigest) [alice, bob] [7] := by
  obtain ⟨alice, bob, halice, hbob⟩ := residues_keys
  refine ⟨alice, bob, not_aggregationSound _ (by simp) ?_ [7]⟩
  intro key hkey
  rcases List.mem_cons.mp hkey with rfl | hkey
  · exact ⟨_, halice⟩
  · obtain rfl := List.mem_singleton.mp hkey
    exact ⟨_, hbob⟩

/-- One signer: the key, the signature, and neither is aggregated. -/
theorem lone_signer_not_aggregated : ∃ alice signature,
    generateBLSKeyPair residues ⟨3, by decide⟩ = .ok alice ∧
      signBLS residues alice.privateKey [7] = .ok signature ∧
      aggregatePublicKeys residues [alice.publicKey] = .error externalError ∧
      aggregateSignatures residues (fun _ => zeroDigest) [signature] = .error externalError ∧
      ¬AggregationSound residues (fun _ => zeroDigest) [alice] [7] := by
  obtain ⟨alice, -, halice, -⟩ := residues_keys
  obtain ⟨signature, hsignature⟩ := signBLS_ok halice [7]
  have hkeys := aggregatePublicKeys_error halice []
  refine ⟨alice, signature, halice, hsignature, hkeys,
    aggregateSignatures_error _ hsignature [], ?_⟩
  rintro ⟨-, -, aggregatedPublicKey, -, -, haggregate, -⟩
  cases hkeys.symm.trans haggregate

end BioFire.Bls
