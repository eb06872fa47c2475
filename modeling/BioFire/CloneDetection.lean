import BioFire.HardwareFingerprint
import BioFire.LicenseShutdown

/-!
# Cloned licenses (`detectCloning` of `src/lib/licensing/heartbeat.ts`)

The heartbeats that kernels give on their hosts, and what is concluded from them. A host does
not change while a kernel runs on it.

* `detectCloning_iff`: two heartbeats of one epoch from different hardware;
* `bound_step`: what a kernel with a license knows of its host;
* `cloning_reported_iff`: heartbeats of a license that is bound to hardware never show cloning.
-/

namespace BioFire.Licensing

open Runs

/-! ## Detection -/

structure CloningVerdict where
  cloned : Bool
  evidence : JSString
  fingerprints : List JSString

/-- The fingerprints that were seen in each epoch. -/
def epochHwMap (tokens : List HeartbeatToken) : InsertionMap JSNumber (List JSString) :=
  .group (tokens.map fun token => (token.epoch, token.hwFingerprint))

def detectCloning (tokens : List HeartbeatToken) (licenseId : JSString) : CloningVerdict :=
  match (epochHwMap tokens).entries.find? fun (_, fingerprints) => 1 < fingerprints.length with
  | some (epoch, fingerprints) =>
    { cloned := true
      evidence := js "License " ++ licenseId ++ js " detected on " ++ decimal fingerprints.length ++
        js " different hardware instances in epoch " ++ numberString epoch
      fingerprints := fingerprints }
  | none => ⟨false, [], []⟩

/-- **Detection.** Two heartbeats of one epoch have different fingerprints. -/
theorem detectCloning_iff (tokens : List HeartbeatToken) (licenseId : JSString) :
    (detectCloning tokens licenseId).cloned = true ↔
      ∃ t ∈ tokens, ∃ t' ∈ tokens, t.epoch = t'.epoch ∧ t.hwFingerprint ≠ t'.hwFingerprint := by
  have hgroup := InsertionMap.exists_group_iff
    (tokens.map fun token => (token.epoch, token.hwFingerprint))
  have hfound : (detectCloning tokens licenseId).cloned = true ↔
      ∃ e ∈ (epochHwMap tokens).entries, 1 < e.2.length := by
    rw [detectCloning]
    cases hfind : (epochHwMap tokens).entries.find? fun e => 1 < e.2.length with
    | none =>
      refine iff_of_false Bool.false_ne_true ?_
      rintro ⟨e, he, hlength⟩
      exact List.find?_eq_none.mp hfind e he (decide_eq_true hlength)
    | some e =>
      have hlength := List.find?_some hfind
      exact iff_of_true rfl ⟨e, List.mem_of_find?_eq_some hfind, of_decide_eq_true hlength⟩
  rw [hfound, epochHwMap, hgroup]
  simp [List.mem_map]

/-- The fingerprints that are reported are all those of one epoch, once each. -/
theorem detectCloning_fingerprints {tokens : List HeartbeatToken} {licenseId : JSString}
    (h : (detectCloning tokens licenseId).cloned = true) :
    (detectCloning tokens licenseId).fingerprints.Nodup ∧ ∃ epoch, ∀ fingerprint,
      fingerprint ∈ (detectCloning tokens licenseId).fingerprints ↔
        ∃ t ∈ tokens, t.epoch = epoch ∧ t.hwFingerprint = fingerprint := by
  have hgroup := InsertionMap.grouped_group
    (tokens.map fun token => (token.epoch, token.hwFingerprint))
  rw [detectCloning] at h ⊢
  cases hfind : (epochHwMap tokens).entries.find? fun e => 1 < e.2.length with
  | none =>
    rw [hfind] at h
    cases h
  | some e =>
    have hget := InsertionMap.get_eq_some_iff.mpr (List.mem_of_find?_eq_some hfind)
    refine ⟨hgroup.nodup e.1 e.2 hget, e.1, fun fingerprint => ?_⟩
    have hmem := hgroup.mem_iff e.1 fingerprint
    rw [epochHwMap] at hget
    simp only [hget, Option.some.injEq, exists_eq_left', List.mem_map, Prod.mk.injEq] at hmem
    exact hmem

/-! ## Kernels on their hosts -/

variable {oracles : HeartbeatOracles} {blob : LicenseBlob} {host : Host} {s : HeartbeatKernel}

variable (oracles) in
/-- The fingerprint that `generateHardwareFingerprint` finds. -/
def foundOn (host : Host) : JSString :=
  (generateHardwareFingerprint oracles.sha256 host).fingerprint

variable (oracles blob host) in
/-- A kernel that is only initialized with this license, on this host. -/
def OnHost (_ : HeartbeatKernel) : HeartbeatEvent → Prop
  | .call (.initializeLicense blob' _) _ => blob' = blob
  | .call (.finishInitialization _ hardware _) hwFingerprint =>
    hwFingerprint = foundOn oracles host ∧ ∀ check ∈ hardware,
      check.matched = (verifyBinding oracles.sha256 blob.fingerprint host).matched
  | _ => True

variable (oracles blob host) in
/-- What a kernel knows of its license and its host. -/
structure Bound (s : HeartbeatKernel) : Prop where
  waiting : ∀ init, some init ∈ s.kernel.pending → init.blob = blob
  licensed : s.kernel.state.isSome → s.hwFingerprint = foundOn oracles host ∧
    (blob.fingerprint = [] ∨ s.hwFingerprint = blob.fingerprint)

/-- A call leaves the other properties of a kernel to the model of the license. -/
theorem kernelCall_kernel (s : HeartbeatKernel) (event : KernelEvent) (hwFingerprint : JSString) :
    (kernelCall oracles s event hwFingerprint).kernel =
      step oracles.toLicenseOracles s.kernel event := by
  cases event with
  | finishInitialization k hardware now =>
    rw [kernelCall, step]
    split
    next heq => rw [heq]; rfl
    next heq => rw [heq]
  | _ => rfl

theorem waiting_step {kernel : KernelState}
    (h : ∀ init, some init ∈ kernel.pending → init.blob = blob) {event : KernelEvent}
    (hblob : ∀ blob' now, event = .initializeLicense blob' now → blob' = blob) :
    ∀ init, some init ∈ (step oracles.toLicenseOracles kernel event).pending →
      init.blob = blob := by
  intro init hinit
  cases event with
  | initializeLicense blob' now =>
    obtain rfl := hblob blob' now rfl
    rw [step] at hinit
    rcases initializeLicense_cases oracles.toLicenseOracles kernel blob' now with
      hsame | ⟨-, hnew⟩
    · exact h init (hsame ▸ hinit)
    · rw [hnew] at hinit
      rcases List.mem_append.mp hinit with hold | hlast
      · exact h init hold
      · cases Option.some.inj (List.mem_singleton.mp hlast)
        rfl
  | finishInitialization k hardware now =>
    have hset : ∀ {init}, some init ∈ kernel.pending.set k none → init.blob = blob := by
      intro init hinit
      rcases List.mem_or_eq_of_mem_set hinit with hold | hnone
      · exact h init hold
      · cases hnone
    rw [step] at hinit
    rcases finishInitialization_cases kernel k hardware now with
      hsame | hwaiting | ⟨_, _, -, -, -, hnew⟩
    · exact h init (hsame ▸ hinit)
    · rw [hwaiting] at hinit
      exact hset hinit
    · rw [hnew] at hinit
      exact hset hinit
  | checkFeature feature now => exact h init hinit
  | recordTransaction volumeUSD now =>
    rw [step] at hinit
    rcases recordTransaction_cases kernel volumeUSD with ⟨⟨e, herror⟩, -⟩ | ⟨license, -, -, hrecord⟩
    · rw [herror] at hinit
      exact h init hinit
    · rw [hrecord] at hinit
      exact h init hinit
  | recordCeremony type now => exact h init hinit

theorem isSome_of_step {kernel : KernelState} {event : KernelEvent}
    (h : (step oracles.toLicenseOracles kernel event).state.isSome)
    (hevent : ¬Completes kernel event) : kernel.state.isSome := by
  cases event with
  | initializeLicense blob' now =>
    rw [step] at h
    rcases initializeLicense_cases oracles.toLicenseOracles kernel blob' now with
      hsame | ⟨-, hnew⟩
    · rwa [hsame] at h
    · rwa [hnew] at h
  | finishInitialization k hardware now =>
    rw [step] at h
    rcases finishInitialization_cases kernel k hardware now with
      hsame | hwaiting | ⟨init, check, hinit, hcheck, haccepted, -⟩
    · rwa [hsame] at h
    · rwa [hwaiting] at h
    · exact absurd ⟨init, check, hinit, hcheck, haccepted⟩ hevent
  | checkFeature feature now => exact h
  | recordTransaction volumeUSD now =>
    rw [step] at h
    rcases recordTransaction_cases kernel volumeUSD with
      ⟨⟨e, herror⟩, -⟩ | ⟨license, hlicense, -, -⟩
    · rwa [herror] at h
    · rw [hlicense]
      rfl
  | recordCeremony type now =>
    rw [step, recordCeremony, Option.isSome_map] at h
    exact h

/-- **Step.** A kernel that has a license is on the hardware of its license. -/
theorem bound_step (h : Bound oracles blob host s) {event : HeartbeatEvent}
    (hevent : OnHost oracles blob host s event) :
    Bound oracles blob host (heartbeatStep oracles s event) := by
  cases event with
  | call event hwFingerprint =>
    rw [heartbeatStep]
    refine ⟨?_, ?_⟩
    · rw [kernelCall_kernel]
      refine waiting_step h.waiting ?_
      rintro blob' now rfl
      exact hevent
    · intro hlicense
      rcases kernelCall_cases oracles s event hwFingerprint with
        ⟨hcompletes, hcall⟩ | ⟨hcompletes, _, _, hcall⟩
      · rw [hcall] at hlicense ⊢
        exact h.licensed (isSome_of_step hlicense hcompletes)
      · rw [hcall]
        cases event with
        | finishInitialization k hardware now =>
          obtain ⟨init, check, hinit, rfl, haccepted⟩ := hcompletes
          obtain ⟨rfl, hcheck⟩ := hevent
          refine ⟨rfl, ?_⟩
          rw [hardwareAccepted, h.waiting init (List.mem_of_getElem? hinit), Bool.or_eq_true,
            decide_eq_true_eq, hcheck check rfl, verifyBinding_iff] at haccepted
          exact haccepted
        | _ => exact hcompletes.elim
  | tick timer now finishedAt =>
    obtain ⟨time, token, htick⟩ := heartbeatTick_fst oracles s timer now finishedAt
    rw [heartbeatStep, htick]
    exact ⟨h.waiting, h.licensed⟩
  | shutdown =>
    rw [heartbeatStep, shutdown_eq]
    exact ⟨h.waiting, h.licensed⟩
  | getCurrentHeartbeat | exportTelemetry => exact h

variable (oracles blob) in
/-- The heartbeat was given by a kernel with this license on this host. -/
def GivenOn (host : Host) (token : HeartbeatToken) : Prop :=
  ∃ nodeId heartbeatSecretHex past event,
    Always (heartbeatStep oracles) (newHeartbeatKernel nodeId heartbeatSecretHex) past
      (OnHost oracles blob host) ∧
    secretUse oracles (run (heartbeatStep oracles) (newHeartbeatKernel nodeId heartbeatSecretHex)
      past) event = some (.heartbeat token)

/-- A heartbeat shows the hardware that its kernel found, under a license in use. -/
theorem secretUse_heartbeat {event : HeartbeatEvent} {token : HeartbeatToken}
    (h : secretUse oracles s event = some (.heartbeat token)) :
    s.kernel.state.isSome ∧ token.hwFingerprint = s.hwFingerprint := by
  cases hstate : s.kernel.state with
  | none => cases event <;> simp [secretUse, getCurrentHeartbeat, heartbeatTick, hstate,
      Except.toOption] at h
  | some license =>
    refine ⟨rfl, ?_⟩
    cases event with
    | getCurrentHeartbeat now =>
      simp only [secretUse, getCurrentHeartbeat, hstate, Except.toOption, Option.map_some,
        Option.some.injEq, SecretUse.heartbeat.injEq] at h
      rw [← h]
      rfl
    | tick timer now finishedAt =>
      rw [secretUse, heartbeatTick, hstate] at h
      split at h
      · cases h
        rfl
      · cases h
    | exportTelemetry draws now exportedAt => simp [secretUse] at h
    | call | shutdown => cases h

theorem bound_run {nodeId heartbeatSecretHex : JSString} {events : List HeartbeatEvent}
    (h : Always (heartbeatStep oracles) (newHeartbeatKernel nodeId heartbeatSecretHex) events
      (OnHost oracles blob host)) :
    Bound oracles blob host
      (run (heartbeatStep oracles) (newHeartbeatKernel nodeId heartbeatSecretHex) events) := by
  refine run_induction (fun _ s => Bound oracles blob host s) ⟨?_, ?_⟩
    (fun _ event h hevent => bound_step h hevent) h
  · intro init hinit
    exact absurd hinit List.not_mem_nil
  · intro hnone
    cases hnone

theorem GivenOn.hwFingerprint {token : HeartbeatToken} (h : GivenOn oracles blob host token) :
    token.hwFingerprint = foundOn oracles host ∧
      (blob.fingerprint = [] ∨ token.hwFingerprint = blob.fingerprint) := by
  obtain ⟨nodeId, heartbeatSecretHex, past, event, halways, huse⟩ := h
  obtain ⟨hlicense, heq⟩ := secretUse_heartbeat huse
  rw [heq]
  exact (bound_run halways).licensed hlicense

/-! ## Binding -/

/-- The initialization of a kernel by a valid license on this host. -/
def initialization (oracles : HeartbeatOracles) (blob : LicenseBlob) (host : Host) (now : ℤ) :
    List HeartbeatEvent :=
  [.call (.initializeLicense blob now) [],
    .call (.finishInitialization 0
      (some ⟨(verifyBinding oracles.sha256 blob.fingerprint host).matched, none⟩) now)
      (foundOn oracles host)]

theorem always_initialization (s : HeartbeatKernel) (now : ℤ) :
    Always (heartbeatStep oracles) s (initialization oracles blob host now)
      (OnHost oracles blob host) := by
  have hfirst : Always (heartbeatStep oracles) s ([] ++ [.call (.initializeLicense blob now) []])
      (OnHost oracles blob host) := by
    rw [always_concat]
    exact ⟨always_nil, rfl⟩
  have hcut : initialization oracles blob host now =
      ([] ++ [.call (.initializeLicense blob now) []]) ++
        [.call (.finishInitialization 0
          (some ⟨(verifyBinding oracles.sha256 blob.fingerprint host).matched, none⟩) now)
          (foundOn oracles host)] := rfl
  rw [hcut, always_concat]
  refine ⟨hfirst, rfl, ?_⟩
  rintro check ⟨⟩
  rfl

/-- A valid license is accepted on the hardware it is bound to, and unbound on any hardware. -/
theorem isSome_initialization {now : ℤ}
    (hvalid : (verifyLicenseBlob oracles.toLicenseOracles blob (.ofInt now)).valid = true)
    (hbinding : blob.fingerprint = [] ∨
      (verifyBinding oracles.sha256 blob.fingerprint host).matched = true)
    (nodeId heartbeatSecretHex : JSString) :
    (run (heartbeatStep oracles) (newHeartbeatKernel nodeId heartbeatSecretHex)
      (initialization oracles blob host now)).kernel.state.isSome := by
  have hwaiting : step oracles.toLicenseOracles newKernel (.initializeLicense blob now) =
      ⟨none, [some ⟨blob, verifyLicenseBlob oracles.toLicenseOracles blob (.ofInt now)⟩]⟩ := by
    rw [step, initializeLicense, hvalid]
    rfl
  have haccepted : hardwareAccepted blob
      ⟨(verifyBinding oracles.sha256 blob.fingerprint host).matched, none⟩ = true := by
    rw [hardwareAccepted, Bool.or_eq_true, decide_eq_true_eq]
    exact hbinding
  rw [initialization, run, List.foldl, List.foldl, List.foldl, heartbeatStep, heartbeatStep,
    kernelCall_kernel, kernelCall_kernel]
  change (step _ (step _ newKernel _) _).state.isSome = true
  rw [hwaiting, step, finishInitialization]
  simp [haccepted]

theorem exists_givenOn {now : ℤ}
    (hvalid : (verifyLicenseBlob oracles.toLicenseOracles blob (.ofInt now)).valid = true)
    (hbinding : blob.fingerprint = [] ∨
      (verifyBinding oracles.sha256 blob.fingerprint host).matched = true) :
    ∃ token, GivenOn oracles blob host token ∧ token.epoch = epochAt (.ofInt now) := by
  obtain ⟨license, hlicense⟩ := Option.isSome_iff_exists.mp
    (isSome_initialization hvalid hbinding [] [])
  refine ⟨heartbeat oracles (run (heartbeatStep oracles) (newHeartbeatKernel [] [])
    (initialization oracles blob host now)) license now,
    ⟨[], [], _, .getCurrentHeartbeat now, always_initialization _ now, ?_⟩, rfl⟩
  rw [secretUse, getCurrentHeartbeat, hlicense]
  rfl

/-- **Where a bound license runs.** A license that is bound to the fingerprint of a host runs on
the hosts of the same identity and on no other ones: no change of a part is tolerated. -/
theorem bound_license_runs_iff {host' : Host} (hapart : TellsApart oracles.sha256 host host')
    (hblob : blob.fingerprint = foundOn oracles host) {now : ℤ}
    (hvalid : (verifyLicenseBlob oracles.toLicenseOracles blob (.ofInt now)).valid = true)
    (nodeId heartbeatSecretHex : JSString) :
    (∃ events, Always (heartbeatStep oracles) (newHeartbeatKernel nodeId heartbeatSecretHex) events
        (OnHost oracles blob host') ∧
      (run (heartbeatStep oracles) (newHeartbeatKernel nodeId heartbeatSecretHex)
        events).kernel.state.isSome) ↔ textEncode host'.identity = textEncode host.identity := by
  have hsame : foundOn oracles host' = blob.fingerprint ↔
      textEncode host'.identity = textEncode host.identity := by
    rw [hblob, foundOn, foundOn, fingerprint_eq, fingerprint_eq]
    exact hashedText_inj hapart (by simp [Host.texts]) (by simp [Host.texts])
  rw [← hsame]
  constructor
  · rintro ⟨events, halways, hlicense⟩
    obtain ⟨hfound, hempty | hbound⟩ := (bound_run halways).licensed hlicense
    · rw [hblob, foundOn, fingerprint_eq, hashedText] at hempty
      cases hempty
    · rw [← hfound, hbound]
  · intro h
    exact ⟨_, always_initialization _ now, isSome_initialization hvalid
      (Or.inr ((verifyBinding_iff _ host').mpr h)) nodeId heartbeatSecretHex⟩

/-! ## Fleets -/

/-- **Cloning is reported** exactly when the license is not bound to hardware and two of its
kernels, on hosts with different fingerprints, gave heartbeats in one epoch. -/
theorem cloning_reported_iff (licenseId : JSString) (heartbeats : List (Host × HeartbeatToken))
    (h : ∀ e ∈ heartbeats, GivenOn oracles blob e.1 e.2) :
    (detectCloning (heartbeats.map Prod.snd) licenseId).cloned = true ↔
      blob.fingerprint = [] ∧ ∃ e ∈ heartbeats, ∃ e' ∈ heartbeats, e.2.epoch = e'.2.epoch ∧
        foundOn oracles e.1 ≠ foundOn oracles e'.1 := by
  rw [detectCloning_iff]
  constructor
  · rintro ⟨t, ht, t', ht', hepoch, hne⟩
    obtain ⟨e, he, rfl⟩ := List.mem_map.mp ht
    obtain ⟨e', he', rfl⟩ := List.mem_map.mp ht'
    obtain ⟨hfound, hbound⟩ := (h e he).hwFingerprint
    obtain ⟨hfound', hbound'⟩ := (h e' he').hwFingerprint
    refine ⟨?_, e, he, e', he', hepoch, ?_⟩
    · rcases hbound with hunbound | hsame
      · exact hunbound
      · rcases hbound' with hunbound | hsame'
        · exact hunbound
        · exact absurd (hsame.trans hsame'.symm) hne
    · rwa [← hfound, ← hfound']
  · rintro ⟨-, e, he, e', he', hepoch, hne⟩
    refine ⟨e.2, List.mem_map_of_mem he, e'.2, List.mem_map_of_mem he', hepoch, ?_⟩
    rwa [(h e he).hwFingerprint.1, (h e' he').hwFingerprint.1]

/-! ## A license on two hosts -/

def paddedOracles : HeartbeatOracles where
  toLicenseOracles := { sampleOracles with sha256 := paddedSha256 }
  hmac _ _ := oneDigest
  addLaplaceNoise _ value _ _ := value

/-- The sample, bound to the sample host. -/
def boundBlob : LicenseBlob :=
  { sampleBlob with hardwareFingerprint := some (foundOn paddedOracles sampleHost) }

theorem boundBlob_valid :
    (verifyLicenseBlob paddedOracles.toLicenseOracles boundBlob (.ofInt 1000)).valid = true := by
  decide +kernel

/-- The bound license does not run with a new network card. -/
theorem bound_license_runs_iff_renewed : ¬ ∃ events,
    Always (heartbeatStep paddedOracles) (newHeartbeatKernel (js "node-1") []) events
        (OnHost paddedOracles boundBlob renewedHost) ∧
      (run (heartbeatStep paddedOracles) (newHeartbeatKernel (js "node-1") [])
        events).kernel.state.isSome := by
  have hapart : TellsApart paddedOracles.sha256 sampleHost renewedHost :=
    tellsApart_of_texts (by decide +kernel)
  rw [bound_license_runs_iff hapart rfl boundBlob_valid]
  decide

theorem sampleBlob_valid_padded :
    (verifyLicenseBlob paddedOracles.toLicenseOracles sampleBlob (.ofInt 1000)).valid = true := by
  decide +kernel

/-- The unbound license on both hosts is reported. -/
theorem cloning_reported_iff_two : ∃ t t', GivenOn paddedOracles sampleBlob sampleHost t ∧
    GivenOn paddedOracles sampleBlob renewedHost t' ∧
    (detectCloning [t, t'] (js "LIC-1")).cloned = true := by
  obtain ⟨t, hgiven, hepoch⟩ :=
    @exists_givenOn _ _ sampleHost _ sampleBlob_valid_padded (Or.inl rfl)
  obtain ⟨t', hgiven', hepoch'⟩ :=
    @exists_givenOn _ _ renewedHost _ sampleBlob_valid_padded (Or.inl rfl)
  refine ⟨t, t', hgiven, hgiven', ?_⟩
  have hall : ∀ e ∈ [(sampleHost, t), (renewedHost, t')],
      GivenOn paddedOracles sampleBlob e.1 e.2 := by
    intro e he
    rcases List.mem_pair.mp he with rfl | rfl
    · exact hgiven
    · exact hgiven'
  have hdiffer : foundOn paddedOracles sampleHost ≠ foundOn paddedOracles renewedHost := by decide
  exact (cloning_reported_iff (js "LIC-1") _ hall).mpr ⟨rfl, _, List.mem_cons_self, _,
    List.mem_cons_of_mem _ List.mem_cons_self, hepoch.trans hepoch'.symm, hdiffer⟩

end BioFire.Licensing
