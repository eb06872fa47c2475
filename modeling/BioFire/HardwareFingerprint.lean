import BioFire.Grouping
import BioFire.Heartbeat

/-!
# Hardware fingerprints (`src/lib/licensing/hardware_fingerprint.ts`)

A host is what the readers find on it; none of them throws, so the fallback for containers is
never reached. SHA-256 is a parameter.

* `generateHardwareFingerprint`, `verifyHardwareFingerprint`: the model;
* `verify_generated_iff`: which changes of a host a stored fingerprint tolerates;
* `verifyBinding_iff`: the check of the license kernel compares the fingerprints alone.
-/

namespace BioFire.Licensing

/-! ## The model -/

inductive FingerprintSource where
  | TPM | SEV_SNP | TDX | CPUID_MAC_DISK | CONTAINER | FALLBACK
  deriving DecidableEq

structure HardwareFingerprint where
  fingerprint : JSString
  source : FingerprintSource
  components : InsertionMap JSString JSString
  confidence : JSNumber

/-- What `readTPMEKpub`, `readCPUID`, `readMACAddress` and `readDiskSerial` return. -/
structure Host where
  ekpub : Option JSString
  cpuId : JSString
  macAddr : JSString
  diskSerial : JSString

/-- The key of a TPM that is not empty. -/
def Host.tpm (host : Host) : Option JSString := host.ekpub.filter (· ≠ [])

def Host.composite (host : Host) : JSString :=
  host.cpuId ++ js ":" ++ host.macAddr ++ js ":" ++ host.diskSerial

section

variable (sha256 : Bytes → Digest)

/-- `'0x' + bytesToHex(sha256(new TextEncoder().encode(text)))` -/
def hashedText (text : JSString) : JSString := js "0x" ++ bytesToHex (sha256 (textEncode text)).1

def generateHardwareFingerprint (host : Host) : HardwareFingerprint :=
  match host.tpm with
  | some tpm =>
    { fingerprint := hashedText sha256 (js "tpm:" ++ tpm)
      source := .TPM
      components := InsertionMap.empty.setAll [(js "ekpub", hashedText sha256 tpm)]
      confidence := .finite 1 }
  | none =>
    { fingerprint := hashedText sha256 host.composite
      source := .CPUID_MAC_DISK
      components := InsertionMap.empty.setAll
        [(js "cpuId", hashedText sha256 host.cpuId), (js "mac", hashedText sha256 host.macAddr),
          (js "disk", hashedText sha256 host.diskSerial)]
      confidence := .ofRat (7 / 10) }

structure FingerprintVerdict where
  matched : Bool
  score : JSNumber
  reason : Option JSString

/-- The quotient of two counts, of which the first one is at most the second. -/
def share (part whole : ℕ) : JSNumber := if whole = 0 then .nan else .ofRat (part / whole)

def verifyHardwareFingerprint (storedFingerprint : HardwareFingerprint) (host : Host) :
    FingerprintVerdict :=
  let current := generateHardwareFingerprint sha256 host
  if current.fingerprint = storedFingerprint.fingerprint then ⟨true, .finite 1, none⟩
  else
    let matchingComponents := storedFingerprint.components.entries.countP fun (key, storedHash) =>
      current.components.get key = some storedHash
    let totalComponents := storedFingerprint.components.size
    let score := share matchingComponents totalComponents
    if storedFingerprint.source = .CPUID_MAC_DISK ∧ (JSNumber.ofRat (66 / 100)).le score then
      ⟨true, score, some (js "Partial match (hardware change detected)")⟩
    else ⟨false, score, some (js "Hardware fingerprint mismatch — possible license cloning")⟩

/-- The check of `initializeLicense`, for a license with this fingerprint. -/
def verifyBinding (fingerprint : JSString) (host : Host) : FingerprintVerdict :=
  verifyHardwareFingerprint sha256 ⟨fingerprint, .TPM, .empty, .finite 1⟩ host

/-! ## Which changes are tolerated -/

/-- The text whose hash identifies a host. -/
def Host.identity (host : Host) : JSString :=
  match host.tpm with
  | some tpm => js "tpm:" ++ tpm
  | none => host.composite

/-- The texts that are hashed for a host. -/
def Host.texts (host : Host) : List JSString :=
  [host.identity, host.cpuId, host.macAddr, host.diskSerial]

/-- The hash does not confuse what is hashed for these two hosts. -/
def TellsApart (host host' : Host) : Prop :=
  Set.InjOn sha256 {bytes | ∃ text ∈ host.texts ++ host'.texts, textEncode text = bytes}

/-- Which of the three parts are the same on both hosts. -/
def sameParts (host host' : Host) : List Bool :=
  [textEncode host'.cpuId = textEncode host.cpuId,
    textEncode host'.macAddr = textEncode host.macAddr,
    textEncode host'.diskSerial = textEncode host.diskSerial]

variable {sha256} {host host' : Host}

theorem fingerprint_eq (host : Host) :
    (generateHardwareFingerprint sha256 host).fingerprint = hashedText sha256 host.identity := by
  rw [generateHardwareFingerprint, Host.identity]
  cases host.tpm <;> rfl

theorem hashedText_inj (h : TellsApart sha256 host host') {a b : JSString}
    (ha : a ∈ host.texts ++ host'.texts) (hb : b ∈ host.texts ++ host'.texts) :
    hashedText sha256 a = hashedText sha256 b ↔ textEncode a = textEncode b := by
  constructor
  · intro heq
    have hdigest := bytesToHex_injective (List.append_cancel_left heq)
    exact h ⟨a, ha, rfl⟩ ⟨b, hb, rfl⟩ (Subtype.ext hdigest)
  · intro heq
    rw [hashedText, hashedText, heq]

/-- How many parts of a stored fingerprint a host has. -/
def matchingComponents (sha256 : Bytes → Digest) (stored : HardwareFingerprint) (host : Host) : ℕ :=
  stored.components.entries.countP fun (key, storedHash) =>
    (generateHardwareFingerprint sha256 host).components.get key = some storedHash

/-- A host matches as a whole or in enough of its parts. -/
theorem verify_iff (stored : HardwareFingerprint) (host : Host) :
    (verifyHardwareFingerprint sha256 stored host).matched = true ↔
      (generateHardwareFingerprint sha256 host).fingerprint = stored.fingerprint ∨
        stored.source = .CPUID_MAC_DISK ∧ (JSNumber.ofRat (66 / 100)).le
          (share (matchingComponents sha256 stored host) stored.components.size) = true := by
  rw [verifyHardwareFingerprint]
  dsimp only
  split
  next heq => exact iff_of_true rfl (Or.inl heq)
  next hne =>
    rw [or_iff_right hne]
    split
    next henough => exact iff_of_true rfl henough
    next hfew => exact iff_of_false Bool.false_ne_true hfew

/-- **The check of the kernel** compares the fingerprints and nothing else. -/
theorem verifyBinding_iff (fingerprint : JSString) (host : Host) :
    (verifyBinding sha256 fingerprint host).matched = true ↔
      (generateHardwareFingerprint sha256 host).fingerprint = fingerprint := by
  rw [verifyBinding, verify_iff]
  simp

/-- Two of three parts are enough. -/
theorem two_thirds_enough {count : ℕ} (hcount : count ≤ 3) :
    (JSNumber.ofRat (66 / 100)).le (share count 3) = true ↔ 2 ≤ count := by
  have hscores : ∀ k ≤ 3, (JSNumber.ofRat (66 / 100)).le (share k 3) = true ↔ 2 ≤ k := by
    decide +kernel
  exact hscores count hcount

theorem source_of_tpm {tpm : JSString} (h : host.tpm = some tpm) :
    (generateHardwareFingerprint sha256 host).source = .TPM := by
  rw [generateHardwareFingerprint, h]

theorem get_of_tpm {tpm : JSString} (h : host.tpm = some tpm) {key : JSString}
    (hkey : key ≠ js "ekpub") :
    (generateHardwareFingerprint sha256 host).components.get key = none := by
  rw [generateHardwareFingerprint, h]
  dsimp only [InsertionMap.setAll, List.foldl]
  rw [InsertionMap.get_set, if_neg hkey, InsertionMap.get_empty]

theorem generate_of_none (h : host.tpm = none) :
    (generateHardwareFingerprint sha256 host).source = .CPUID_MAC_DISK ∧
      (generateHardwareFingerprint sha256 host).components.entries =
        [(js "cpuId", hashedText sha256 host.cpuId), (js "mac", hashedText sha256 host.macAddr),
          (js "disk", hashedText sha256 host.diskSerial)] := by
  rw [generateHardwareFingerprint, h]
  exact ⟨rfl, rfl⟩

theorem get_of_none (h : host.tpm = none) {key value : JSString} :
    (generateHardwareFingerprint sha256 host).components.get key = some value ↔
      key = js "cpuId" ∧ value = hashedText sha256 host.cpuId ∨
        key = js "mac" ∧ value = hashedText sha256 host.macAddr ∨
        key = js "disk" ∧ value = hashedText sha256 host.diskSerial := by
  rw [InsertionMap.get_eq_some_iff, (generate_of_none h).2]
  simp

/-- The parts that match are those that are the same; a host with a TPM shows none of them. -/
theorem matchingComponents_generated (h : TellsApart sha256 host host') (hnone : host.tpm = none) :
    matchingComponents sha256 (generateHardwareFingerprint sha256 host) host' =
      if host'.tpm = none then (sameParts host host').countP id else 0 := by
  have hkeys : js "cpuId" ≠ js "mac" ∧ js "cpuId" ≠ js "disk" ∧ js "mac" ≠ js "disk" ∧
      js "cpuId" ≠ js "ekpub" ∧ js "mac" ≠ js "ekpub" ∧ js "disk" ≠ js "ekpub" := by decide
  obtain ⟨hcm, hcd, hmd, hce, hme, hde⟩ := hkeys
  rw [matchingComponents, (generate_of_none hnone).2]
  cases hother : host'.tpm with
  | some tpm =>
    rw [if_neg (Option.some_ne_none tpm)]
    simp [get_of_tpm hother, hce, hme, hde]
  | none =>
    have hparts : ∀ {a b}, a ∈ host.texts ++ host'.texts → b ∈ host.texts ++ host'.texts →
        (hashedText sha256 a = hashedText sha256 b ↔ textEncode b = textEncode a) :=
      fun ha hb => (hashedText_inj h ha hb).trans eq_comm
    have hcpu : hashedText sha256 host.cpuId = hashedText sha256 host'.cpuId ↔ _ :=
      hparts (by simp [Host.texts]) (by simp [Host.texts])
    have hmac : hashedText sha256 host.macAddr = hashedText sha256 host'.macAddr ↔ _ :=
      hparts (by simp [Host.texts]) (by simp [Host.texts])
    have hdisk : hashedText sha256 host.diskSerial = hashedText sha256 host'.diskSerial ↔ _ :=
      hparts (by simp [Host.texts]) (by simp [Host.texts])
    rw [if_pos rfl]
    simp [get_of_none hother, sameParts, List.countP_cons, hcpu, hmac, hdisk, hcm, hcd, hmd,
      hcm.symm, hcd.symm, hmd.symm]

/-- **Tolerated changes.** The fingerprint of a host matches another one when both have the same
identity, or when neither has a TPM and two of their three parts are the same. -/
theorem verify_generated_iff (h : TellsApart sha256 host host') :
    (verifyHardwareFingerprint sha256 (generateHardwareFingerprint sha256 host) host').matched =
        true ↔
      textEncode host'.identity = textEncode host.identity ∨
        host.tpm = none ∧ host'.tpm = none ∧ 2 ≤ (sameParts host host').countP id := by
  rw [verify_iff, fingerprint_eq, fingerprint_eq,
    hashedText_inj h (by simp [Host.texts]) (by simp [Host.texts])]
  refine or_congr_right ?_
  cases htpm : host.tpm with
  | some tpm => simp [source_of_tpm htpm]
  | none =>
    have hsize : (generateHardwareFingerprint sha256 host).components.size = 3 := by
      rw [InsertionMap.size, (generate_of_none htpm).2]
      rfl
    rw [(generate_of_none htpm).1, hsize, matchingComponents_generated h htpm,
      eq_self_iff_true, true_and, eq_self_iff_true, true_and]
    split
    next hother =>
      rw [two_thirds_enough List.countP_le_length, hother]
      simp
    next hother =>
      rw [two_thirds_enough (Nat.zero_le 3)]
      simp [hother]

end

/-! ## A new network card -/

/-- The first 32 bytes, and zeros. -/
def paddedSha256 (bytes : Bytes) : Digest :=
  ⟨(bytes ++ List.replicate 32 0).take 32, by simp⟩

def sampleHost : Host := ⟨none, js "cpu", js "mac", js "disk"⟩

def renewedHost : Host := { sampleHost with macAddr := js "new" }

theorem tellsApart_of_texts {sha256 : Bytes → Digest} {host host' : Host}
    (h : ∀ a ∈ host.texts ++ host'.texts, ∀ b ∈ host.texts ++ host'.texts,
      sha256 (textEncode a) = sha256 (textEncode b) → textEncode a = textEncode b) :
    TellsApart sha256 host host' := by
  rintro _ ⟨a, ha, rfl⟩ _ ⟨b, hb, rfl⟩
  exact h a ha b hb

/-- The fingerprint of a host without a TPM tolerates a new network card. -/
theorem verify_generated_iff_renewed :
    (verifyHardwareFingerprint paddedSha256 (generateHardwareFingerprint paddedSha256 sampleHost)
      renewedHost).matched = true := by
  have hapart : TellsApart paddedSha256 sampleHost renewedHost :=
    tellsApart_of_texts (by decide +kernel)
  exact (verify_generated_iff hapart).mpr (Or.inr ⟨rfl, rfl, by decide⟩)

end BioFire.Licensing
