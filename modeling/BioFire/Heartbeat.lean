import BioFire.Json
import BioFire.LicenseBlob

/-!
# Heartbeats and telemetry (`src/lib/licensing`)

What the license kernel computes under its secret: `generateHeartbeat` of
`heartbeat.ts` and `generateTelemetry` of `telemetry/telemetry_engine.ts`, and the check
`verifyHeartbeat`. The HMAC is a parameter, and so is `addLaplaceNoise`, whose logarithm
is not modelled.

* `epochAt_ofInt`: the epoch of a time, which no rounding changes;
* `verifyHeartbeat_generated`: a token is accepted for two epochs behind its own;
* `heartbeat_fresh_iff`: what that means for its age.
-/

namespace BioFire

namespace JSNumber

/-- `Math.floor`. -/
def floor : JSNumber → JSNumber
  | finite x => finite ⌊x⌋
  | x => x

/-- `Math.round`. -/
def round : JSNumber → JSNumber
  | finite x => finite ⌊x + 1 / 2⌋
  | x => x

/-- `Math.min`. -/
def min (x y : JSNumber) : JSNumber :=
  if x = nan ∨ y = nan then nan else if y.lt x then y else x

/-- `Math.max`. -/
def max (x y : JSNumber) : JSNumber :=
  if x = nan ∨ y = nan then nan else if x.lt y then y else x

def neg : JSNumber → JSNumber
  | finite x => finite (-x)
  | infinity => negInfinity
  | negInfinity => infinity
  | nan => nan

/-- `x - y`. -/
def sub (x y : JSNumber) : JSNumber := x.add y.neg

/-- `Math.abs`. -/
def abs : JSNumber → JSNumber
  | finite x => finite |x|
  | nan => nan
  | _ => infinity

theorem ofRat_of_abs_lt {x : ℚ} (h : |binary64.round x| < 2 ^ 53) :
    ofRat x = finite (binary64.round x) := by
  have hlog : Int.log 2 |binary64.round x| < 53 := by
    by_cases hx₀ : binary64.round x = 0
    · rw [hx₀, abs_zero, Int.log_zero_right]
      decide
    · exact (Int.lt_zpow_iff_log_lt one_lt_two (abs_pos.mpr hx₀)).mp (by exact_mod_cast h)
  rw [ofRat, if_pos (hlog.trans (by decide))]

end JSNumber

namespace Licensing

structure HeartbeatOracles extends LicenseOracles where
  /-- `hmac(sha256, key, message)` -/
  hmac : Bytes → Bytes → Digest
  /-- `addLaplaceNoise(value, epsilon, sensitivity)`, of what `Math.random()` returned. -/
  addLaplaceNoise : JSNumber → JSNumber → JSNumber → JSNumber → JSNumber

variable (oracles : HeartbeatOracles)

/-! ## Heartbeats -/

def EPOCH_DURATION_MS : ℕ := 5 * 60 * 1000

structure HeartbeatToken where
  epoch : JSNumber
  nodeId : JSString
  hwFingerprint : JSString
  usageHash : JSString
  timestamp : JSNumber
  token : JSString
  deriving DecidableEq

/-- `Math.floor(now / EPOCH_DURATION_MS)` -/
def epochAt (now : JSNumber) : JSNumber := (now.mulRat (1 / EPOCH_DURATION_MS)).floor

/-- The text under the HMAC of a token. -/
def tokenText (epoch : JSNumber) (nodeId hwFingerprint usageHash : JSString)
    (timestamp : JSNumber) : JSString :=
  numberString epoch ++ js ":" ++ nodeId ++ js ":" ++ hwFingerprint ++ js ":" ++ usageHash ++
    js ":" ++ numberString timestamp

/-- `generateHeartbeat` at the time `now`; `hwFingerprint` is the property `fingerprint` of
its argument, the counters are in the order of their object. -/
def generateHeartbeat (nodeId hwFingerprint : JSString) (usageCounters : List (JSString × JSNumber))
    (secretKey : Bytes) (now : ℤ) : HeartbeatToken :=
  let epoch := epochAt (.ofInt now)
  let usageData := (Json.object (usageCounters.map fun c => (c.1, jsonNumber c.2))).stringify
  let usageHash := js "0x" ++ bytesToHex (oracles.sha256 (textEncode usageData)).1
  let tokenData := textEncode (tokenText epoch nodeId hwFingerprint usageHash (.ofInt now))
  { epoch := epoch
    nodeId := nodeId
    hwFingerprint := hwFingerprint
    usageHash := usageHash
    timestamp := .ofInt now
    token := js "0x" ++ bytesToHex (oracles.hmac secretKey tokenData).1 }

structure HeartbeatVerdict where
  valid : Bool
  reason : Option JSString
  deriving DecidableEq

/-- `verifyHeartbeat` at the time `now`. -/
def verifyHeartbeat (token : HeartbeatToken) (secretKey : Bytes)
    (expectedHwFingerprint : JSString) (now : ℤ) : HeartbeatVerdict :=
  let currentEpoch := epochAt (.ofInt now)
  if (JSNumber.finite 2).lt (currentEpoch.sub token.epoch).abs then
    ⟨false, some (js "EPOCH_EXPIRED")⟩
  else if token.hwFingerprint ≠ expectedHwFingerprint then
    ⟨false, some (js "HARDWARE_MISMATCH")⟩
  else
    let tokenData := textEncode (tokenText token.epoch token.nodeId token.hwFingerprint
      token.usageHash token.timestamp)
    let expectedToken := js "0x" ++ bytesToHex (oracles.hmac secretKey tokenData).1
    if token.token ≠ expectedToken then ⟨false, some (js "INVALID_HMAC")⟩
    else ⟨true, none⟩

/-- **The epoch of a time**: the division of two doubles does not round up to the next
epoch. -/
theorem epochAt_ofInt {now : ℤ} (h : |now| < 2 ^ 53) :
    epochAt (.ofInt now) = .ofInt (now / EPOCH_DURATION_MS) := by
  have hdiv : ⌊(now : ℚ) * (1 / EPOCH_DURATION_MS)⌋ = now / EPOCH_DURATION_MS := by
    rw [mul_one_div]
    exact Rat.floor_intCast_div_natCast now EPOCH_DURATION_MS
  have hsize : |(now : ℚ)| < 2 ^ 53 := by exact_mod_cast h
  set x : ℚ := now * (1 / EPOCH_DURATION_MS) with hx
  have habs : |x| < 2 ^ 35 := by
    rw [hx, abs_mul, EPOCH_DURATION_MS]
    norm_num
    linarith
  -- the last bit of the quotient is at most `2 ^ (-18)`
  have hexp : binary64.lastExponent x ≤ -18 := by
    have hlog : Int.log 2 |x| < 35 := by
      by_cases hx₀ : x = 0
      · rw [hx₀, abs_zero, Int.log_zero_right]
        decide
      · exact (Int.lt_zpow_iff_log_lt one_lt_two (abs_pos.mpr hx₀)).mp (by exact_mod_cast habs)
    rw [FloatFormat.lastExponent, binary64]
    exact max_le (by push_cast; omega) (by decide)
  have hunit : (2 : ℚ) ^ binary64.lastExponent x ≤ 2 ^ (-18 : ℤ) :=
    zpow_le_zpow_right₀ one_le_two hexp
  -- and a quotient that is no integer misses the next one by `1 / 300000` at least
  have hgap : x + 1 / EPOCH_DURATION_MS ≤ ⌊x⌋ + 1 := by
    rw [hdiv, hx]
    have hrem : now + 1 ≤ (now / EPOCH_DURATION_MS + 1) * EPOCH_DURATION_MS := by
      rw [EPOCH_DURATION_MS]
      push_cast
      omega
    have hcast : (now : ℚ) + 1 ≤ ((now / EPOCH_DURATION_MS : ℤ) + 1) * EPOCH_DURATION_MS := by
      exact_mod_cast hrem
    rw [mul_one_div, ← add_div, div_le_iff₀ (by norm_num [EPOCH_DURATION_MS])]
    exact hcast
  have hfloor : ⌊binary64.round x⌋ = ⌊x⌋ := by
    refine binary64.floor_round (hexp.trans (by decide)) (lt_of_lt_of_le ?_ hgap)
    have hsmall : (2 : ℚ) ^ binary64.lastExponent x / 2 < 1 / EPOCH_DURATION_MS :=
      lt_of_le_of_lt (div_le_div_of_nonneg_right hunit two_pos.le) (by norm_num [EPOCH_DURATION_MS])
    linarith only [hsmall]
  have hfinite : JSNumber.ofRat x = .finite (binary64.round x) := by
    obtain ⟨hlo, hhi⟩ := Int.floor_eq_iff.mp hfloor
    obtain ⟨hlo', hhi'⟩ := abs_lt.mp habs
    have hfloor_le := Int.floor_le x
    have hlt_floor := Int.lt_floor_add_one x
    refine JSNumber.ofRat_of_abs_lt (lt_of_lt_of_le (abs_lt.mpr ⟨?_, ?_⟩)
      (pow_le_pow_right₀ one_le_two (by decide : 36 ≤ 53)))
    · linarith only [hlo, hlt_floor, hlo']
    · linarith only [hhi, hfloor_le, hhi']
  rw [epochAt, JSNumber.ofInt, JSNumber.mulRat, ← hx, hfinite, JSNumber.floor, hfloor, hdiv]
  rfl

/-- The times of a `Date`. -/
def InDateRange (time : ℤ) : Prop := |time| ≤ 8640000000000000

/-- **A token against a later time**: it is accepted for its own epoch and two more. -/
theorem verifyHeartbeat_generated (nodeId hwFingerprint : JSString)
    (usageCounters : List (JSString × JSNumber)) (secretKey : Bytes) {t t' : ℤ}
    (ht : InDateRange t) (ht' : InDateRange t') (hle : t ≤ t') :
    verifyHeartbeat oracles
        (generateHeartbeat oracles nodeId hwFingerprint usageCounters secretKey t) secretKey
        hwFingerprint t' =
      if t' / EPOCH_DURATION_MS - t / EPOCH_DURATION_MS ≤ 2 then ⟨true, none⟩
      else ⟨false, some (js "EPOCH_EXPIRED")⟩ := by
  have hsize : ∀ {time : ℤ}, InDateRange time → |time| < 2 ^ 53 := by
    intro time h
    exact lt_of_le_of_lt h (by decide)
  have hepoch := epochAt_ofInt (hsize ht)
  have hepoch' := epochAt_ofInt (hsize ht')
  rw [InDateRange, abs_le] at ht ht'
  obtain ⟨age, hage⟩ : ∃ age : ℕ, t' / EPOCH_DURATION_MS - t / EPOCH_DURATION_MS = age := by
    refine Int.eq_ofNat_of_zero_le (sub_nonneg.mpr ?_)
    exact Int.ediv_le_ediv (by decide) hle
  have hsmall : age < 2 ^ 53 := by
    rw [EPOCH_DURATION_MS] at hage
    omega
  have hsub : (JSNumber.ofInt (t' / EPOCH_DURATION_MS)).sub (.ofInt (t / EPOCH_DURATION_MS)) =
      .finite age := by
    have hcast : ((t' / EPOCH_DURATION_MS : ℤ) : ℚ) + -((t / EPOCH_DURATION_MS : ℤ) : ℚ) = age := by
      rw [← sub_eq_add_neg]
      exact_mod_cast hage
    rw [JSNumber.ofInt, JSNumber.ofInt, JSNumber.sub, JSNumber.neg, JSNumber.add, hcast,
      JSNumber.ofRat_natCast hsmall]
  have hexpired : (JSNumber.finite 2).lt (JSNumber.abs (.finite age)) = true ↔
      ¬t' / EPOCH_DURATION_MS - t / EPOCH_DURATION_MS ≤ 2 := by
    rw [JSNumber.abs, JSNumber.lt_finite, decide_eq_true_eq, Nat.abs_cast, hage, not_le]
    norm_cast
  simp only [verifyHeartbeat, generateHeartbeat, hepoch, hepoch', hsub]
  by_cases hfresh : t' / EPOCH_DURATION_MS - t / EPOCH_DURATION_MS ≤ 2
  · rw [if_neg (hexpired.not.mpr (not_not.mpr hfresh)), if_pos hfresh, if_neg (not_not.mpr rfl),
      if_neg (not_not.mpr rfl)]
  · rw [if_pos (hexpired.mpr hfresh), if_neg hfresh]

/-- **Freshness of heartbeats.** A token is accepted up to an age of ten minutes and
rejected beyond it, exactly when it is not older than ten minutes, or as old as three
epochs from the start of its own. -/
theorem heartbeat_fresh_iff (nodeId hwFingerprint : JSString)
    (usageCounters : List (JSString × JSNumber)) (secretKey : Bytes) {t t' : ℤ}
    (ht : InDateRange t) (ht' : InDateRange t') (hle : t ≤ t') :
    let verdict := verifyHeartbeat oracles
      (generateHeartbeat oracles nodeId hwFingerprint usageCounters secretKey t) secretKey
      hwFingerprint t'
    ((t' - t ≤ 10 * 60 * 1000 → verdict = ⟨true, none⟩) ∧
        (10 * 60 * 1000 < t' - t → verdict = ⟨false, some (js "EPOCH_EXPIRED")⟩)) ↔
      t' - t ≤ 10 * 60 * 1000 ∨ 15 * 60 * 1000 ≤ t' - t + t % EPOCH_DURATION_MS := by
  intro verdict
  have hverdict : verdict = _ :=
    verifyHeartbeat_generated oracles nodeId hwFingerprint usageCounters secretKey ht ht' hle
  have hepochs : t' / EPOCH_DURATION_MS - t / EPOCH_DURATION_MS ≤ 2 ↔
      t' - t + t % EPOCH_DURATION_MS < 15 * 60 * 1000 := by
    rw [EPOCH_DURATION_MS]
    omega
  have hphase : 0 ≤ t % EPOCH_DURATION_MS ∧ t % EPOCH_DURATION_MS < EPOCH_DURATION_MS := by
    rw [EPOCH_DURATION_MS]
    omega
  rw [hverdict]
  by_cases hfresh : t' / EPOCH_DURATION_MS - t / EPOCH_DURATION_MS ≤ 2
  · rw [if_pos hfresh]
    have hbefore := hepochs.mp hfresh
    constructor
    · rintro ⟨-, hreject⟩
      by_contra hnot
      exact absurd (hreject (by omega)) (by decide)
    · intro h
      exact ⟨fun _ => rfl, fun hlate => absurd h (by omega)⟩
  · rw [if_neg hfresh]
    have hafter : 15 * 60 * 1000 ≤ t' - t + t % EPOCH_DURATION_MS := by
      rw [hepochs] at hfresh
      omega
    refine ⟨fun _ => Or.inr hafter, fun _ => ⟨fun hearly => ?_, fun _ => rfl⟩⟩
    rw [EPOCH_DURATION_MS] at hafter hphase
    omega

def sampleHeartbeatOracles : HeartbeatOracles where
  toLicenseOracles := { sampleOracles with
    ed25519Sign := fun _ secret =>
      if secret.length = 32 then .ok sampleSignature else .error externalError }
  hmac _ _ := oneDigest
  addLaplaceNoise _ value _ _ := value

/-- A token at an age of ten minutes. -/
theorem heartbeat_fresh_iff_ten_minutes :
    let verdict := verifyHeartbeat sampleHeartbeatOracles
      (generateHeartbeat sampleHeartbeatOracles (js "node-1") (js "fp") [(js "sign", .finite 3)]
        sampleKey 1700000100000) sampleKey (js "fp") 1700000700000
    (((1700000700000 : ℤ) - 1700000100000 ≤ 10 * 60 * 1000 → verdict = ⟨true, none⟩) ∧
        (10 * 60 * 1000 < (1700000700000 : ℤ) - 1700000100000 →
          verdict = ⟨false, some (js "EPOCH_EXPIRED")⟩)) ↔
      (1700000700000 : ℤ) - 1700000100000 ≤ 10 * 60 * 1000 ∨
        15 * 60 * 1000 ≤
          (1700000700000 : ℤ) - 1700000100000 + 1700000100000 % EPOCH_DURATION_MS :=
  heartbeat_fresh_iff sampleHeartbeatOracles (js "node-1") (js "fp") [(js "sign", .finite 3)]
    sampleKey (by unfold InDateRange; decide) (by unfold InDateRange; decide) (by decide)

/-- A token from the start of its epoch, a millisecond older than ten minutes. -/
theorem stale_heartbeat_accepted :
    verifyHeartbeat sampleHeartbeatOracles
        (generateHeartbeat sampleHeartbeatOracles (js "node-1") (js "fp")
          [(js "sign", .finite 3)] sampleKey 1700000100000) sampleKey (js "fp") 1700000700001 =
      ⟨true, none⟩ ∧
    (10 * 60 * 1000 : ℤ) < 1700000700001 - 1700000100000 := by
  refine ⟨?_, by decide⟩
  rw [verifyHeartbeat_generated sampleHeartbeatOracles (js "node-1") (js "fp")
    [(js "sign", .finite 3)] sampleKey (by unfold InDateRange; decide)
    (by unfold InDateRange; decide) (by decide)]
  decide

/-! ## Telemetry -/

def DEFAULT_EPSILON : JSNumber := .finite 1
def DEFAULT_SENSITIVITY : JSNumber := .finite 1

/-- The argument `rawMetrics`. -/
structure RawMetrics where
  totalTransactions : JSNumber
  totalVolumeUSD : JSNumber
  activeNodes : JSNumber
  avgSigningLatencyMs : JSNumber
  errorRatePercent : JSNumber
  uniqueChains : JSNumber
  dkgCount : JSNumber
  signCount : JSNumber
  refreshCount : JSNumber

/-- The properties of `mpcCeremonies` are the last three. -/
structure DifferentiallyPrivateMetrics where
  totalTransactions : JSNumber
  totalVolumeUSD : JSNumber
  activeNodes : JSNumber
  avgSigningLatencyMs : JSNumber
  errorRatePercent : JSNumber
  uniqueChains : JSNumber
  dkgCount : JSNumber
  signCount : JSNumber
  refreshCount : JSNumber

/-- The properties of `reportingPeriod` are `periodStart` and `periodEnd`. -/
structure TelemetryPayload where
  customerId : JSString
  licenseId : JSString
  periodStart : JSNumber
  periodEnd : JSNumber
  metrics : DifferentiallyPrivateMetrics
  schemaVersion : JSNumber

structure TelemetryExport where
  payload : TelemetryPayload
  signature : JSString
  exportedAt : ℤ

/-- `generateTelemetry` with the default `epsilon`; `draws` is what the five calls of
`Math.random` returned. -/
def generateTelemetry (customerId licenseId : JSString) (rawMetrics : RawMetrics)
    (periodStart periodEnd : JSNumber) (draws : Fin 5 → JSNumber) : TelemetryPayload where
  customerId := customerId
  licenseId := licenseId
  periodStart := periodStart
  periodEnd := periodEnd
  metrics :=
    { totalTransactions := (oracles.addLaplaceNoise (draws 0) rawMetrics.totalTransactions
        DEFAULT_EPSILON DEFAULT_SENSITIVITY).round
      totalVolumeUSD := (oracles.addLaplaceNoise (draws 1)
        (rawMetrics.totalVolumeUSD.mulRat (1 / 1000)) DEFAULT_EPSILON
        DEFAULT_SENSITIVITY).round.mulRat 1000
      activeNodes := (oracles.addLaplaceNoise (draws 2) rawMetrics.activeNodes
        DEFAULT_EPSILON DEFAULT_SENSITIVITY).round
      avgSigningLatencyMs := (oracles.addLaplaceNoise (draws 3) rawMetrics.avgSigningLatencyMs
        DEFAULT_EPSILON DEFAULT_SENSITIVITY).round
      errorRatePercent := .max (.finite 0) (.min (.finite 100) (oracles.addLaplaceNoise (draws 4)
        rawMetrics.errorRatePercent DEFAULT_EPSILON (.ofRat (1 / 10))))
      uniqueChains := rawMetrics.uniqueChains
      dkgCount := rawMetrics.dkgCount
      signCount := rawMetrics.signCount
      refreshCount := rawMetrics.refreshCount }
  schemaVersion := .finite 1

/-- The object that `JSON.stringify(payload)` writes. -/
def TelemetryPayload.toJson (payload : TelemetryPayload) : Json :=
  .object [(js "customerId", .string payload.customerId),
    (js "licenseId", .string payload.licenseId),
    (js "reportingPeriod", .object [(js "start", jsonNumber payload.periodStart),
      (js "end", jsonNumber payload.periodEnd)]),
    (js "metrics", .object [
      (js "totalTransactions", jsonNumber payload.metrics.totalTransactions),
      (js "totalVolumeUSD", jsonNumber payload.metrics.totalVolumeUSD),
      (js "activeNodes", jsonNumber payload.metrics.activeNodes),
      (js "avgSigningLatencyMs", jsonNumber payload.metrics.avgSigningLatencyMs),
      (js "errorRatePercent", jsonNumber payload.metrics.errorRatePercent),
      (js "uniqueChains", jsonNumber payload.metrics.uniqueChains),
      (js "mpcCeremonies", .object [(js "dkgCount", jsonNumber payload.metrics.dkgCount),
        (js "signCount", jsonNumber payload.metrics.signCount),
        (js "refreshCount", jsonNumber payload.metrics.refreshCount)])]),
    (js "schemaVersion", jsonNumber payload.schemaVersion)]

end Licensing

end BioFire
