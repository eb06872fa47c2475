import BioFire.PackContent

/-!
# Licenses (`src/lib/licensing/license_blob.ts`)

Signing and checking a license. SHA-256, Ed25519 and the configured master key are
parameters; `ed25519Verify sig message pub` and `ed25519Sign` may throw. The result
field `remainingTxQuota`, which nothing sets, is left out.

* `serialize_isOk`: which terms can be serialized;
* `issued_license_verifies_iff`: only those licenses can be issued and verified;
* `same_bytes_iff`: what terms with the same bytes have in common.
-/

namespace BioFire.Licensing

open BinarySerializer

/-! ## The format -/

inductive LicenseTier where
  | COMMUNITY | STARTUP | BUSINESS | ENTERPRISE | CUSTOM
  deriving DecidableEq

def LicenseTier.text : LicenseTier → JSString
  | COMMUNITY => js "COMMUNITY"
  | STARTUP => js "STARTUP"
  | BUSINESS => js "BUSINESS"
  | ENTERPRISE => js "ENTERPRISE"
  | CUSTOM => js "CUSTOM"

inductive QuotaPeriod where
  | MONTHLY | ANNUAL
  deriving DecidableEq

def QuotaPeriod.text : QuotaPeriod → JSString
  | MONTHLY => js "MONTHLY"
  | ANNUAL => js "ANNUAL"

@[ext]
structure TransactionQuota where
  period : QuotaPeriod
  maxTransactions : JSNumber
  maxVolumeUSD : JSNumber
  deriving DecidableEq

@[ext]
structure ValidityWindow where
  notBefore : JSNumber
  notAfter : JSNumber
  deriving DecidableEq

/-- `Omit<LicenseBlob, 'signature'>`. -/
structure LicenseTerms where
  licenseId : JSString
  customerId : JSString
  tier : LicenseTier
  featureFlags : List JSString
  nodeLimit : JSNumber
  transactionQuota : TransactionQuota
  validityWindow : ValidityWindow
  hardwareFingerprint : Option JSString
  gracePeriodHours : JSNumber
  issuedAt : JSNumber
  deriving DecidableEq

structure LicenseBlob extends LicenseTerms where
  signature : JSString
  deriving DecidableEq

structure LicenseVerificationResult where
  valid : Bool
  expired : Bool
  inGracePeriod : Bool
  gracePeriodEndsAt : Option JSNumber
  reason : Option JSString
  features : List JSString
  nodeLimit : JSNumber

structure LicenseOracles where
  sha256 : Bytes → Digest
  ed25519Sign : Bytes → Bytes → Except JSError Bytes
  ed25519Verify : Bytes → Bytes → Bytes → Except JSError Bool
  BIOFIRE_MASTER_PUBLIC_KEY : JSString

/-- `blob.hardwareFingerprint || ''` -/
def LicenseTerms.fingerprint (terms : LicenseTerms) : JSString := terms.hardwareFingerprint.getD []

/-- The properties that `serializeLicenseData` packs. -/
def licenseRecord (terms : LicenseTerms) : JSRecord :=
  [(js "licenseId", .string terms.licenseId),
    (js "customerId", .string terms.customerId),
    (js "tier", .string terms.tier.text),
    (js "featureFlags", .array (terms.featureFlags.map .string)),
    (js "nodeLimit", .number terms.nodeLimit),
    (js "txPeriod", .string terms.transactionQuota.period.text),
    (js "txMax", .number terms.transactionQuota.maxTransactions),
    (js "txVolume", .number terms.transactionQuota.maxVolumeUSD),
    (js "notBefore", .number terms.validityWindow.notBefore),
    (js "notAfter", .number terms.validityWindow.notAfter),
    (js "hwFingerprint", .string terms.fingerprint),
    (js "graceHours", .number terms.gracePeriodHours),
    (js "issuedAt", .number terms.issuedAt)]

variable (oracles : LicenseOracles)

def serializeLicenseData (terms : LicenseTerms) : Except JSError Bytes := do
  let payload ← pack oracles.sha256 (js "LICENSE_BLOB") (licenseRecord terms)
  return payload.bytes

def signLicenseBlob (terms : LicenseTerms) (masterPrivateKey : Bytes) :
    Except JSError LicenseBlob := do
  let serialized ← serializeLicenseData oracles terms
  let signature ← oracles.ed25519Sign serialized masterPrivateKey
  return { terms with signature := js "0x" ++ bytesToHex signature }

/-- The body of the `try`. -/
def signatureCheck (blob : LicenseBlob) : Except JSError Bool := do
  let serialized ← serializeLicenseData oracles blob.toLicenseTerms
  let pub ← hexToBytes (removeHexPrefix oracles.BIOFIRE_MASTER_PUBLIC_KEY)
  let sig ← hexToBytes (removeHexPrefix blob.signature)
  oracles.ed25519Verify sig serialized pub

/-- `notAfter + gracePeriodHours * 3600 * 1000` -/
def graceEnd (terms : LicenseTerms) : JSNumber :=
  terms.validityWindow.notAfter.add ((terms.gracePeriodHours.mulRat 3600).mulRat 1000)

/-- What `verifyLicenseBlob` returns after the signature, at the time `now`. -/
def checkWindow (terms : LicenseTerms) (now : JSNumber) : LicenseVerificationResult :=
  let result : LicenseVerificationResult :=
    ⟨false, false, false, none, none, terms.featureFlags, terms.nodeLimit⟩
  if now.lt terms.validityWindow.notBefore then { result with reason := some (js "NOT_YET_VALID") }
  else if terms.validityWindow.notAfter.lt now then
    if now.lt (graceEnd terms) then
      { result with
        valid := true
        expired := true
        inGracePeriod := true
        gracePeriodEndsAt := some (graceEnd terms) }
    else { result with expired := true, reason := some (js "EXPIRED") }
  else { result with valid := true }

def verifyLicenseBlob (blob : LicenseBlob) (now : JSNumber) : LicenseVerificationResult :=
  match signatureCheck oracles blob with
  | .error _ =>
    ⟨false, false, false, none, some (js "SIGNATURE_VERIFICATION_FAILED"), blob.featureFlags,
      blob.nodeLimit⟩
  | .ok false =>
    ⟨false, false, false, none, some (js "INVALID_SIGNATURE"), blob.featureFlags, blob.nodeLimit⟩
  | .ok true => checkWindow blob.toLicenseTerms now

def hasFeature (blob : LicenseBlob) (feature : JSString) : Bool :=
  blob.featureFlags.contains feature

/-! ## Which terms can be serialized -/

/-- The numbers of a license. -/
def LicenseTerms.numbers (terms : LicenseTerms) : List JSNumber :=
  [terms.nodeLimit, terms.transactionQuota.maxTransactions, terms.transactionQuota.maxVolumeUSD,
    terms.validityWindow.notBefore, terms.validityWindow.notAfter, terms.gracePeriodHours,
    terms.issuedAt]

/-- The free texts of a license. -/
def LicenseTerms.texts (terms : LicenseTerms) : List JSString :=
  terms.licenseId :: terms.customerId :: terms.fingerprint :: terms.featureFlags

/-- The numbers have at most 32 bits, every text at most 4096 bytes, and the feature
list fits in one field. -/
structure Serializable (terms : LicenseTerms) : Prop where
  numbers : ∀ x ∈ terms.numbers, x.leRat 0xFFFFFFFF = true
  texts : ∀ s ∈ terms.texts, (textEncode s).length ≤ 4096
  featureFlags : stringsSize terms.featureFlags ≤ 65518

/-- All numbers are non-negative integers. -/
def IntegerTerms (terms : LicenseTerms) : Prop := ∀ x ∈ terms.numbers, ∃ n : ℕ, x = .finite n

variable {oracles}

theorem tier_text_length (tier : LicenseTier) : (textEncode tier.text).length ≤ 4096 := by
  cases tier <;> decide

theorem period_text_length (period : QuotaPeriod) : (textEncode period.text).length ≤ 4096 := by
  cases period <;> decide

theorem fieldFits_of_natural {key : JSString} (hkey : (textEncode key).length ≤ 255) {x : JSNumber}
    (hx : ∃ n : ℕ, x = .finite n) : FieldFits (key, .number x) ↔ x.leRat 0xFFFFFFFF = true := by
  obtain ⟨n, rfl⟩ := hx
  rw [fieldFits_number hkey, JSNumber.leRat, decide_eq_true_eq]
  exact_mod_cast Iff.rfl

theorem licenseRecord_length (terms : LicenseTerms) : (licenseRecord terms).length ≤ 15 := by
  change 13 ≤ 15
  decide

variable (oracles) in
/-- **Which terms can be serialized.** -/
theorem serialize_isOk {terms : LicenseTerms} (hterms : IntegerTerms terms) :
    (∃ bytes, serializeLicenseData oracles terms = .ok bytes) ↔ Serializable terms := by
  have hpack : (∃ bytes, serializeLicenseData oracles terms = .ok bytes) ↔
      ∃ p, pack oracles.sha256 (js "LICENSE_BLOB") (licenseRecord terms) = .ok p := by
    constructor
    · rintro ⟨bytes, h⟩
      obtain ⟨p, hp, -⟩ := bind_eq_ok h
      exact ⟨p, hp⟩
    · rintro ⟨p, hp⟩
      refine ⟨p.bytes, ?_⟩
      rw [serializeLicenseData, hp]
      rfl
  simp only [IntegerTerms, LicenseTerms.numbers, List.forall_mem_cons] at hterms
  obtain ⟨h₁, h₂, h₃, h₄, h₅, h₆, h₇, -⟩ := hterms
  rw [hpack, pack_isOk (by decide) (licenseRecord_length terms)]
  simp only [licenseRecord, List.forall_mem_cons]
  rw [fieldFits_string (by decide), fieldFits_string (by decide), fieldFits_string (by decide),
    fieldFits_strings (by decide), fieldFits_of_natural (by decide) h₁,
    fieldFits_string (by decide), fieldFits_of_natural (by decide) h₂,
    fieldFits_of_natural (by decide) h₃, fieldFits_of_natural (by decide) h₄,
    fieldFits_of_natural (by decide) h₅, fieldFits_string (by decide),
    fieldFits_of_natural (by decide) h₆, fieldFits_of_natural (by decide) h₇]
  have hflags : (textEncode (js "featureFlags")).length + stringsSize terms.featureFlags + 6 ≤
      MAX_FIELD_SIZE ↔ stringsSize terms.featureFlags ≤ 65518 := by
    rw [show (textEncode (js "featureFlags")).length = 12 from rfl, MAX_FIELD_SIZE]
    omega
  rw [hflags]
  constructor
  · rintro ⟨hid, hcustomer, -, ⟨hall, hsize⟩, hnode, -, hmax, hvolume, hbefore, hafter, hhw, hgrace,
      hissued, -⟩
    refine ⟨?_, ?_, hsize⟩
    · simp only [LicenseTerms.numbers, List.forall_mem_cons]
      exact ⟨hnode, hmax, hvolume, hbefore, hafter, hgrace, hissued, fun x hx => absurd hx List.not_mem_nil⟩
    · simp only [LicenseTerms.texts, List.forall_mem_cons]
      exact ⟨hid, hcustomer, hhw, hall⟩
  · rintro ⟨hnumbers, htexts, hsize⟩
    simp only [LicenseTerms.numbers, List.forall_mem_cons] at hnumbers
    simp only [LicenseTerms.texts, List.forall_mem_cons] at htexts
    obtain ⟨hnode, hmax, hvolume, hbefore, hafter, hgrace, hissued, -⟩ := hnumbers
    obtain ⟨hid, hcustomer, hhw, hall⟩ := htexts
    exact ⟨hid, hcustomer, tier_text_length _, ⟨hall, hsize⟩, hnode, period_text_length _, hmax,
      hvolume, hbefore, hafter, hhw, hgrace, hissued, fun e he => absurd he List.not_mem_nil⟩

/-- The numbers of serialized terms are in the range of 32 bits. -/
theorem finite_of_serialized {terms : LicenseTerms} {bytes : Bytes}
    (h : serializeLicenseData oracles terms = .ok bytes) :
    ∀ x ∈ terms.numbers, ∃ q : ℚ, x = .finite q ∧ 0 ≤ q ∧ q ≤ 0xFFFFFFFF := by
  obtain ⟨p, hp, -⟩ := bind_eq_ok h
  have hfits := (pack_isOk (by decide) (licenseRecord_length terms)).mp ⟨p, hp⟩
  simp only [licenseRecord, List.forall_mem_cons] at hfits
  obtain ⟨-, -, -, -, hnode, -, hmax, hvolume, hbefore, hafter, -, hgrace, hissued, -⟩ := hfits
  simp only [LicenseTerms.numbers, List.forall_mem_cons]
  exact ⟨finite_of_fieldFits hnode, finite_of_fieldFits hmax, finite_of_fieldFits hvolume,
    finite_of_fieldFits hbefore, finite_of_fieldFits hafter, finite_of_fieldFits hgrace,
    finite_of_fieldFits hissued, fun x hx => absurd hx List.not_mem_nil⟩

theorem checks_of_valid {blob : LicenseBlob} {now : JSNumber}
    (h : (verifyLicenseBlob oracles blob now).valid = true) :
    (∃ bytes, serializeLicenseData oracles blob.toLicenseTerms = .ok bytes) ∧
      (checkWindow blob.toLicenseTerms now).valid = true := by
  rw [verifyLicenseBlob] at h
  split at h
  · cases h
  · cases h
  next hcheck =>
    obtain ⟨bytes, hbytes, -⟩ := bind_eq_ok hcheck
    exact ⟨⟨bytes, hbytes⟩, h⟩

/-! ## Issuing and verifying -/

/-- Ed25519 is correct for the key, and its public half is the configured one. -/
def MasterKey (oracles : LicenseOracles) (masterPrivateKey : Bytes) : Prop :=
  ∃ pub, hexToBytes (removeHexPrefix oracles.BIOFIRE_MASTER_PUBLIC_KEY) = .ok pub ∧
    ∀ message, ∃ sig, oracles.ed25519Sign message masterPrivateKey = .ok sig ∧
      oracles.ed25519Verify sig message pub = .ok true

/-- `now` is in the validity window, both ends included. -/
def InsideWindow (terms : LicenseTerms) (now : JSNumber) : Prop :=
  terms.validityWindow.notBefore.le now = true ∧ now.le terms.validityWindow.notAfter = true

/-- The license is issued and verifies at the time `now`. -/
def IssuesValid (oracles : LicenseOracles) (masterPrivateKey : Bytes) (terms : LicenseTerms)
    (now : JSNumber) : Prop :=
  ∃ blob, signLicenseBlob oracles terms masterPrivateKey = .ok blob ∧
    (verifyLicenseBlob oracles blob now).valid = true

theorem lt_eq_false_of_le {x y : JSNumber} (h : x.le y = true) : y.lt x = false := by
  cases x <;> cases y <;> simp_all [JSNumber.le, JSNumber.lt, JSNumber.ltRat]
  exact h.elim le_of_lt le_of_eq

theorem checkWindow_valid {terms : LicenseTerms} {now : JSNumber} (h : InsideWindow terms now) :
    (checkWindow terms now).valid = true := by
  rw [checkWindow, lt_eq_false_of_le h.1, lt_eq_false_of_le h.2]
  rfl

theorem signatureCheck_signed {masterPrivateKey : Bytes} (hkey : MasterKey oracles masterPrivateKey)
    {terms : LicenseTerms} {bytes : Bytes} (h : serializeLicenseData oracles terms = .ok bytes) :
    ∃ blob, signLicenseBlob oracles terms masterPrivateKey = .ok blob ∧
      blob.toLicenseTerms = terms ∧ signatureCheck oracles blob = .ok true := by
  obtain ⟨pub, hpub, hsign⟩ := hkey
  obtain ⟨sig, hsig, hverify⟩ := hsign bytes
  refine ⟨{ terms with signature := js "0x" ++ bytesToHex sig }, ?_, rfl, ?_⟩
  · rw [signLicenseBlob, h]
    simp only [bind, Except.bind, hsig]
    rfl
  · rw [signatureCheck, h]
    simp only [bind, Except.bind, hpub, removeHexPrefix_append, hexToBytes_bytesToHex, hverify]

/-- **Issue and verification.** A license is issued and verifies inside its window
exactly when its terms can be serialized. -/
theorem issued_license_verifies_iff {masterPrivateKey : Bytes}
    (hkey : MasterKey oracles masterPrivateKey) {terms : LicenseTerms}
    (hterms : IntegerTerms terms) {now : JSNumber} (hnow : InsideWindow terms now) :
    IssuesValid oracles masterPrivateKey terms now ↔ Serializable terms := by
  rw [← serialize_isOk oracles hterms]
  constructor
  · rintro ⟨blob, hblob, -⟩
    obtain ⟨bytes, hbytes, -⟩ := bind_eq_ok hblob
    exact ⟨bytes, hbytes⟩
  · rintro ⟨bytes, hbytes⟩
    obtain ⟨blob, hblob, hsame, hcheck⟩ := signatureCheck_signed hkey hbytes
    refine ⟨blob, hblob, ?_⟩
    rw [verifyLicenseBlob, hcheck, hsame]
    exact checkWindow_valid hnow

/-! ## Equal bytes -/

/-- Two licenses agree on every term, a missing fingerprint read as empty. -/
structure SameTerms (terms terms' : LicenseTerms) : Prop where
  licenseId : terms.licenseId = terms'.licenseId
  customerId : terms.customerId = terms'.customerId
  tier : terms.tier = terms'.tier
  featureFlags : terms.featureFlags = terms'.featureFlags
  nodeLimit : terms.nodeLimit = terms'.nodeLimit
  transactionQuota : terms.transactionQuota = terms'.transactionQuota
  validityWindow : terms.validityWindow = terms'.validityWindow
  fingerprint : terms.fingerprint = terms'.fingerprint
  gracePeriodHours : terms.gracePeriodHours = terms'.gracePeriodHours
  issuedAt : terms.issuedAt = terms'.issuedAt

/-- What the bytes do not show: the fractions of the numbers and the lone surrogates
of the texts. -/
structure SameRemainders (terms terms' : LicenseTerms) : Prop where
  fractions : terms.numbers.map fraction = terms'.numbers.map fraction
  surrogates : terms.texts.map loneSurrogates = terms'.texts.map loneSurrogates

theorem SameTerms.sameRemainders {terms terms' : LicenseTerms} (h : SameTerms terms terms') :
    SameRemainders terms terms' where
  fractions := by
    rw [LicenseTerms.numbers, LicenseTerms.numbers, h.nodeLimit, h.transactionQuota,
      h.validityWindow, h.gracePeriodHours, h.issuedAt]
  surrogates := by
    rw [LicenseTerms.texts, LicenseTerms.texts, h.licenseId, h.customerId, h.fingerprint,
      h.featureFlags]

theorem tier_of_textEncode {tier tier' : LicenseTier}
    (h : textEncode tier.text = textEncode tier'.text) : tier = tier' := by
  cases tier <;> cases tier' <;> revert h <;> decide

theorem period_of_textEncode {period period' : QuotaPeriod}
    (h : textEncode period.text = textEncode period'.text) : period = period' := by
  cases period <;> cases period' <;> revert h <;> decide

theorem serialize_eq_ok {terms : LicenseTerms} {bytes : Bytes}
    (h : serializeLicenseData oracles terms = .ok bytes) :
    ∃ p, pack oracles.sha256 (js "LICENSE_BLOB") (licenseRecord terms) = .ok p ∧ p.bytes = bytes := by
  obtain ⟨p, hp, h⟩ := bind_eq_ok h
  exact ⟨p, hp, Except.ok.inj h⟩

/-- Lists of strings with the same bytes and lone surrogates are equal. -/
theorem strings_eq {strings strings' : List JSString}
    (h : List.Forall₂ (fun s s' => textEncode s = textEncode s') strings strings')
    (hlone : strings.map loneSurrogates = strings'.map loneSurrogates) : strings = strings' := by
  induction h with
  | nil => rfl
  | cons hs _ ih =>
    obtain ⟨hhead, htail⟩ := List.cons.inj hlone
    rw [eq_of_textEncode hs hhead, ih htail]

/-- **Equal bytes.** Terms with the same bytes are the same terms exactly when nothing
that the bytes do not show differs. -/
theorem same_bytes_iff {terms terms' : LicenseTerms} {bytes : Bytes}
    (h : serializeLicenseData oracles terms = .ok bytes)
    (h' : serializeLicenseData oracles terms' = .ok bytes) :
    SameTerms terms terms' ↔ SameRemainders terms terms' := by
  refine ⟨SameTerms.sameRemainders, fun hrest => ?_⟩
  obtain ⟨p, hp, hbytes⟩ := serialize_eq_ok h
  obtain ⟨p', hp', hbytes'⟩ := serialize_eq_ok h'
  have hflags : FieldFits (js "featureFlags", .array (terms.featureFlags.map .string)) := by
    refine (pack_isOk (by decide) (licenseRecord_length terms)).mp ⟨p, hp⟩ _ ?_
    simp [licenseRecord]
  have hfields := pack_inj hp hp' (hbytes.trans hbytes'.symm)
  simp only [licenseRecord, List.forall₂_cons, true_and, and_true, List.forall₂_nil_left_iff] at hfields
  obtain ⟨hid, hcustomer, htier, hfeatures, hnode, hperiod, hmax, hvolume, hbefore, hafter, hhw,
    hgrace, hissued⟩ := hfields
  obtain ⟨hfractions, hsurrogates⟩ := hrest
  simp only [LicenseTerms.numbers, List.map_cons, List.map_nil, List.cons.injEq, and_true] at hfractions
  obtain ⟨fnode, fmax, fvolume, fbefore, fafter, fgrace, fissued⟩ := hfractions
  simp only [LicenseTerms.texts, List.map_cons, List.cons.injEq] at hsurrogates
  obtain ⟨sid, scustomer, shw, sflags⟩ := hsurrogates
  exact {
    licenseId := eq_of_textEncode (textEncode_eq_of_sameEncoding hid) sid
    customerId := eq_of_textEncode (textEncode_eq_of_sameEncoding hcustomer) scustomer
    tier := tier_of_textEncode (textEncode_eq_of_sameEncoding htier)
    featureFlags := strings_eq (textEncode_eq_of_sameEncoding_strings hflags hfeatures) sflags
    nodeLimit := number_eq_of_sameEncoding hnode fnode
    transactionQuota := TransactionQuota.ext (period_of_textEncode (textEncode_eq_of_sameEncoding hperiod))
      (number_eq_of_sameEncoding hmax fmax) (number_eq_of_sameEncoding hvolume fvolume)
    validityWindow := ValidityWindow.ext (number_eq_of_sameEncoding hbefore fbefore)
      (number_eq_of_sameEncoding hafter fafter)
    fingerprint := eq_of_textEncode (textEncode_eq_of_sameEncoding hhw) shw
    gracePeriodHours := number_eq_of_sameEncoding hgrace fgrace
    issuedAt := number_eq_of_sameEncoding hissued fissued }

/-! ## A license -/

/-- A license whose times have 32 bits. -/
def sampleTerms : LicenseTerms where
  licenseId := js "LIC-1"
  customerId := js "CUST-1"
  tier := .STARTUP
  featureFlags := [js "mpc", js "hsm"]
  nodeLimit := .finite 3
  transactionQuota := ⟨.MONTHLY, .finite 1000, .finite 50000⟩
  validityWindow := ⟨.finite 0, .finite 4294967295⟩
  hardwareFingerprint := none
  gracePeriodHours := .finite 72
  issuedAt := .finite 0

/-- SHA-256 of the packed sample in front of its checksum. -/
def sampleDigest : Digest :=
  ⟨[0xa9, 0x22, 0x69, 0x2b, 0xc5, 0xde, 0xe3, 0xc2, 0x8c, 0x0c, 0xec,
    0x97, 0xd7, 0xbf, 0xde, 0xa4, 0x1d, 0x48, 0xae, 0xa5, 0xe6, 0xae,
    0x0a, 0x35, 0x79, 0xf0, 0xf5, 0x8e, 0x99, 0xc2, 0xc6, 0x69], rfl⟩

/-- The Ed25519 signature of the serialized sample by `sampleKey`. -/
def sampleSignature : Bytes :=
  [0x2e, 0x55, 0x2a, 0xc1, 0x5c, 0x0f, 0xf0, 0x4a, 0x1c, 0x87, 0xfe,
    0x28, 0x72, 0xcc, 0xa4, 0xe1, 0xaf, 0xe0, 0x54, 0x2e, 0x27, 0x93,
    0xc0, 0xc7, 0x36, 0x7a, 0x65, 0xf4, 0x54, 0xf5, 0x23, 0xe4, 0x16,
    0x1b, 0x03, 0x0d, 0x40, 0x2a, 0x21, 0x1e, 0x40, 0x30, 0xdd, 0xa5,
    0xc4, 0xef, 0x47, 0xea, 0x34, 0x60, 0x8a, 0xde, 0x36, 0x84, 0x08,
    0x04, 0x83, 0x94, 0xe2, 0xb0, 0x15, 0x1f, 0x41, 0x0c]

def sampleKey : Bytes := (List.range 32).map UInt8.ofNat

def sampleOracles : LicenseOracles where
  sha256 _ := sampleDigest
  ed25519Sign _ _ := .ok sampleSignature
  ed25519Verify sig _ _ := .ok (sig = sampleSignature)
  BIOFIRE_MASTER_PUBLIC_KEY :=
    js "0x03a107bff3ce10be1d70dd18e74bc09967e4d6309ba50d5f1ddc8664125531b8"

theorem masterKey_sample : MasterKey sampleOracles sampleKey := by
  have hpub : ∃ pub,
      hexToBytes (removeHexPrefix sampleOracles.BIOFIRE_MASTER_PUBLIC_KEY) = .ok pub :=
    ⟨_, by with_unfolding_all rfl⟩
  obtain ⟨pub, hpub⟩ := hpub
  refine ⟨pub, hpub, fun message => ⟨sampleSignature, rfl, ?_⟩⟩
  exact congrArg Except.ok (decide_eq_true rfl)

theorem integerTerms_of_numbers {terms : LicenseTerms} (ns : List ℕ)
    (h : terms.numbers = ns.map fun n => .finite n) : IntegerTerms terms := by
  intro x hx
  rw [h] at hx
  obtain ⟨n, -, rfl⟩ := List.mem_map.mp hx
  exact ⟨n, rfl⟩

theorem integerTerms_sample : IntegerTerms sampleTerms :=
  integerTerms_of_numbers [3, 1000, 50000, 0, 4294967295, 72, 0] (by decide)

theorem serializable_sample : Serializable sampleTerms :=
  ⟨by decide, by decide, by decide⟩

theorem issued_license_verifies_iff_sample :
    IssuesValid sampleOracles sampleKey sampleTerms (.finite 1000) ↔ Serializable sampleTerms :=
  issued_license_verifies_iff masterKey_sample integerTerms_sample ⟨by decide, by decide⟩

/-- The sample for the year 2024, in milliseconds. -/
def termsOf2024 : LicenseTerms :=
  { sampleTerms with
    validityWindow := ⟨.finite 1704067200000, .finite 1735689600000⟩
    issuedAt := .finite 1704067200000 }

/-- A license with a present-day window is not issued: the encoder throws. -/
theorem license_of_2024_not_issued :
    MasterKey sampleOracles sampleKey ∧ IntegerTerms termsOf2024 ∧
      InsideWindow termsOf2024 (.finite 1720000000000) ∧
      ¬ IssuesValid sampleOracles sampleKey termsOf2024 (.finite 1720000000000) := by
  have hterms : IntegerTerms termsOf2024 :=
    integerTerms_of_numbers [3, 1000, 50000, 1704067200000, 1735689600000, 72, 1704067200000]
      (by decide)
  refine ⟨masterKey_sample, hterms, ⟨by decide, by decide⟩, ?_⟩
  rintro ⟨blob, hblob, -⟩
  obtain ⟨bytes, hbytes, -⟩ := bind_eq_ok hblob
  have herror : serializeLicenseData sampleOracles termsOf2024 =
      .error ⟨.TypeError, js "Assignment to constant variable."⟩ := by decide
  rw [herror] at hbytes
  cases hbytes

/-- The sample with an empty fingerprint. -/
def unboundTerms : LicenseTerms := { sampleTerms with hardwareFingerprint := some [] }

theorem same_bytes_iff_unbound :
    SameTerms sampleTerms unboundTerms ↔ SameRemainders sampleTerms unboundTerms := by
  obtain ⟨bytes, hbytes⟩ := (serialize_isOk sampleOracles integerTerms_sample).mpr serializable_sample
  have hsame : serializeLicenseData sampleOracles unboundTerms =
      serializeLicenseData sampleOracles sampleTerms := by decide +kernel
  exact same_bytes_iff hbytes (hsame.trans hbytes)

/-- The sample with half a node more. -/
def halfNodeTerms : LicenseTerms := { sampleTerms with nodeLimit := .finite (7 / 2) }

/-- Half a node more keeps the bytes, and the issued signature valid. -/
theorem half_node_keeps_signature :
    (∃ bytes, serializeLicenseData sampleOracles sampleTerms = .ok bytes ∧
        serializeLicenseData sampleOracles halfNodeTerms = .ok bytes) ∧
      ¬ SameTerms sampleTerms halfNodeTerms ∧
      ∃ blob, signLicenseBlob sampleOracles sampleTerms sampleKey = .ok blob ∧
        (verifyLicenseBlob sampleOracles { halfNodeTerms with signature := blob.signature }
          (.finite 1000)).valid = true := by
  have hserializable :=
    (serialize_isOk sampleOracles integerTerms_sample).mpr serializable_sample
  obtain ⟨bytes, hbytes⟩ := hserializable
  have hsame : serializeLicenseData sampleOracles halfNodeTerms =
      serializeLicenseData sampleOracles sampleTerms := by decide +kernel
  refine ⟨⟨bytes, hbytes, hsame.trans hbytes⟩, ?_, ?_⟩
  · intro h
    have hnodes := h.nodeLimit
    revert hnodes
    with_unfolding_all decide
  · obtain ⟨blob, hblob, hterms, hcheck⟩ := signatureCheck_signed masterKey_sample hbytes
    refine ⟨blob, hblob, ?_⟩
    have hcheck' : signatureCheck sampleOracles { halfNodeTerms with signature := blob.signature } =
        signatureCheck sampleOracles blob := by
      rw [signatureCheck, signatureCheck, hterms, hsame]
    have hinside : InsideWindow halfNodeTerms (.finite 1000) := ⟨by decide, by decide⟩
    rw [verifyLicenseBlob, hcheck', hcheck]
    exact checkWindow_valid hinside

end BioFire.Licensing
