import BioFire.ByteNumbers
import BioFire.JSValue
import BioFire.Outcome
import Mathlib.Data.Nat.Digits.Lemmas
import Mathlib.Tactic.Ring

/-!
# Rejection sampling (`src/lib/security/secure_random.ts`)

The loop of `randomBigInt` draws eight bytes more than `max` has and compares the whole number
with `max`.

* `randomBigInt_returns_iff`: the call returns the first number below `max` that is drawn;
* `ncard_acceptedStrings`: the accepted strings are as many as the numbers below `max`;
* `two_pow_mul_ncard_accepted_lt`: fewer than one string in `2 ^ 64`.
-/

namespace BioFire

/-! ## The loop -/

/-- What the generator of the platform fills in, if there is one. -/
def secureRandomBytes (length : ℕ) (generator : Option {bytes : Bytes // bytes.length = length}) :
    Except JSError {bytes : Bytes // bytes.length = length} :=
  if length = 0 ∨ 65536 < length then
    .error ⟨.CSPRNGError, js "Invalid length: " ++ decimal length ++ js ". Must be 1-65536."⟩
  else match generator with
    | none => .error ⟨.CSPRNGError,
        js "FATAL: CSPRNG (crypto.getRandomValues or crypto.randomBytes) is not available. " ++
          js "This environment is UNSAFE for cryptographic operations."⟩
    | some bytes => .ok bytes

def extraBytes : ℕ := 8

/-- `max.toString(2).length` for a positive `max`. -/
def bitLength (max : ℤ) : ℕ := (Nat.digits 2 max.natAbs).length

/-- The number of bytes that one iteration draws. -/
def drawLength (max : ℤ) : ℕ :=
  let byteLength := (bitLength max + 7) / 8
  byteLength + extraBytes

/-- The bytes of the iterations. -/
abbrev Draws (max : ℤ) := ℕ → Option {bytes : Bytes // bytes.length = drawLength max}

/-- One iteration, on the `k`-th string. -/
def sampleRound (max : ℤ) (generator : Draws max) (k : ℕ) : Outcome JSError (ℕ ⊕ ℤ) :=
  (Outcome.ofExcept (secureRandomBytes (drawLength max) (generator k))).bind fun bytes =>
    let result := bytesToBigInt bytes.1
    if result < max then .returns (.inr result) else .returns (.inl (k + 1))

def randomBigInt (max : ℤ) (generator : Draws max) (fuel : ℕ) : Outcome JSError ℤ :=
  if max ≤ 0 then .throws ⟨.CSPRNGError, js "max must be positive"⟩
  else Outcome.loop (sampleRound max generator) fuel 0

/-- A string that ends the loop. -/
def AcceptsDraw (max : ℤ) (bytes : {bytes : Bytes // bytes.length = drawLength max}) : Prop :=
  ∃ v, sampleRound max (fun _ => some bytes) 0 = .returns (.inr v)

theorem secureRandomBytes_eq_ok {length : ℕ}
    {generator : Option {bytes : Bytes // bytes.length = length}}
    {bytes : {bytes : Bytes // bytes.length = length}} :
    secureRandomBytes length generator = .ok bytes ↔
      0 < length ∧ length ≤ 65536 ∧ generator = some bytes := by
  unfold secureRandomBytes
  split
  next h =>
    refine iff_of_false (by simp) ?_
    rintro ⟨hpos, hle, -⟩
    omega
  next h =>
    have hlength : 0 < length ∧ length ≤ 65536 := by omega
    cases generator with
    | none => simp
    | some bytes' => simp [hlength]

theorem drawLength_pos (max : ℤ) : 0 < drawLength max := by
  rw [drawLength, extraBytes]
  omega

variable {max : ℤ} {generator : Draws max}

theorem sampleRound_accepts_iff {k : ℕ} {v : ℤ} :
    sampleRound max generator k = .returns (.inr v) ↔
      drawLength max ≤ 65536 ∧ ∃ bytes, generator k = some bytes ∧
        bytesToBigInt bytes.1 = v ∧ v < max := by
  rw [sampleRound]
  constructor
  · intro h
    obtain ⟨bytes, hbytes, h⟩ := Outcome.bind_eq_returns h
    obtain ⟨-, hle, hbytes⟩ := secureRandomBytes_eq_ok.mp (Outcome.ofExcept_eq_returns hbytes)
    dsimp only at h
    split at h
    next hlt =>
      cases h
      exact ⟨hle, bytes, hbytes, rfl, hlt⟩
    · cases h
  · rintro ⟨hle, bytes, hbytes, rfl, hlt⟩
    rw [secureRandomBytes_eq_ok.mpr ⟨drawLength_pos max, hle, hbytes⟩]
    simp [hlt]

theorem sampleRound_rejects {k k' : ℕ}
    (h : sampleRound max generator k = .returns (.inl k')) : k' = k + 1 := by
  rw [sampleRound] at h
  obtain ⟨bytes, -, h⟩ := Outcome.bind_eq_returns h
  dsimp only at h
  split at h
  · cases h
  · cases h
    rfl

/-- **The loop ends with the first accepted string.** -/
theorem randomBigInt_returns_iff {v : ℤ} :
    Returns (randomBigInt max generator) v ↔
      0 < max ∧ ∃ n, (∀ j < n, sampleRound max generator j = .returns (.inl (j + 1))) ∧
        sampleRound max generator n = .returns (.inr v) := by
  simp only [Returns, randomBigInt]
  split
  next hmax =>
    refine iff_of_false (by simp) ?_
    rintro ⟨hpos, -⟩
    omega
  next hmax =>
    simp only [loop_counter_returns_iff sampleRound_rejects, Nat.zero_add]
    constructor
    · rintro ⟨fuel, n, -, h⟩
      exact ⟨by omega, n, h⟩
    · rintro ⟨-, n, h⟩
      exact ⟨n + 1, n, by omega, h⟩

theorem randomBigInt_mem {v : ℤ} (h : Returns (randomBigInt max generator) v) :
    0 ≤ v ∧ v < max := by
  obtain ⟨-, n, -, hlast⟩ := randomBigInt_returns_iff.mp h
  obtain ⟨-, bytes, -, rfl, hlt⟩ := sampleRound_accepts_iff.mp hlast
  exact ⟨(bytesToBigInt_bounds bytes.1).1, hlt⟩

/-! ## How many strings are accepted -/

/-- The strings that one iteration can draw. -/
def drawnStrings (max : ℤ) : Set Bytes := {bytes | bytes.length = drawLength max}

/-- Those among them that end the loop. -/
def acceptedStrings (max : ℤ) : Set Bytes :=
  {bytes | ∃ h : bytes.length = drawLength max, AcceptsDraw max ⟨bytes, h⟩}

/-- At least one string in 256 is accepted. -/
def MakesProgress (max : ℤ) : Prop :=
  (drawnStrings max).ncard ≤ 256 * (acceptedStrings max).ncard

theorem acceptsDraw_iff {bytes : {bytes : Bytes // bytes.length = drawLength max}} :
    AcceptsDraw max bytes ↔ drawLength max ≤ 65536 ∧ bytesToBigInt bytes.1 < max := by
  simp only [AcceptsDraw, sampleRound_accepts_iff]
  constructor
  · rintro ⟨v, hle, bytes', hbytes, rfl, hlt⟩
    rw [Option.some.injEq] at hbytes
    exact ⟨hle, hbytes ▸ hlt⟩
  · rintro ⟨hle, hlt⟩
    exact ⟨_, hle, bytes, rfl, rfl, hlt⟩

theorem lt_pow_drawLength (max : ℤ) : max.natAbs * 2 ^ 64 < 256 ^ drawLength max := by
  have hbits : max.natAbs < 2 ^ bitLength max := Nat.lt_base_pow_length_digits (by decide)
  have hbytes : 2 ^ bitLength max ≤ 2 ^ (8 * ((bitLength max + 7) / 8)) :=
    Nat.pow_le_pow_right (by decide) (by omega)
  calc max.natAbs * 2 ^ 64
      < 2 ^ (8 * ((bitLength max + 7) / 8)) * 2 ^ 64 :=
        Nat.mul_lt_mul_of_pos_right (hbits.trans_le hbytes) (by positivity)
    _ = 2 ^ (8 * drawLength max) := by
        rw [← pow_add, drawLength, extraBytes, Nat.mul_add]
    _ = 256 ^ drawLength max := pow_mul 2 8 (drawLength max)

theorem ncard_drawnStrings (max : ℤ) : (drawnStrings max).ncard = 256 ^ drawLength max := by
  rw [← ncard_bytes_lt (le_refl (256 ^ drawLength max)), drawnStrings]
  congr 1
  ext bytes
  refine ⟨fun h => ⟨h, ?_⟩, fun h => h.1⟩
  rw [← Set.mem_ofPred_eq.mp h]
  exact_mod_cast (bytesToBigInt_bounds bytes).2

theorem ncard_acceptedStrings (hmax : 1 ≤ max) (hlength : drawLength max ≤ 65536) :
    (acceptedStrings max).ncard = max.toNat := by
  have hlt := lt_pow_drawLength max
  rw [← ncard_bytes_lt (n := drawLength max) (m := max.toNat) (by omega), acceptedStrings]
  congr 1
  ext bytes
  simp only [Set.mem_ofPred_eq, acceptsDraw_iff]
  constructor
  · rintro ⟨h, -, hvalue⟩
    exact ⟨h, by omega⟩
  · rintro ⟨h, hvalue⟩
    exact ⟨h, hlength, by omega⟩

theorem ncard_acceptedStrings_le (hmax : 1 ≤ max) : (acceptedStrings max).ncard ≤ max.natAbs := by
  by_cases hlength : drawLength max ≤ 65536
  · rw [ncard_acceptedStrings hmax hlength]
    omega
  · have hempty : acceptedStrings max = ∅ := by
      refine Set.eq_empty_of_forall_notMem ?_
      rintro bytes ⟨h, haccepts⟩
      exact hlength (acceptsDraw_iff.mp haccepts).1
    rw [hempty, Set.ncard_empty]
    omega

theorem two_pow_mul_ncard_accepted_lt (hmax : 1 ≤ max) :
    (acceptedStrings max).ncard * 2 ^ 64 < (drawnStrings max).ncard := by
  rw [ncard_drawnStrings]
  exact (Nat.mul_le_mul_right _ (ncard_acceptedStrings_le hmax)).trans_lt (lt_pow_drawLength max)

/-- **Fewer than one string in `2 ^ 64` is accepted**, for every bound. -/
theorem not_makesProgress (max : ℤ) (hmax : 1 ≤ max) : ¬MakesProgress max := by
  have hrare := two_pow_mul_ncard_accepted_lt hmax
  rw [MakesProgress]
  omega

theorem not_makesProgress_thousand : ¬MakesProgress 1000 := not_makesProgress 1000 (by decide)

/-- For a bound of 1000 the loop draws ten bytes and accepts 1000 of the strings. -/
theorem thousand_of_ten_bytes :
    (drawnStrings 1000).ncard = 256 ^ 10 ∧ (acceptedStrings 1000).ncard = 1000 ∧
      ¬MakesProgress 1000 := by
  have hlength : drawLength 1000 = 10 := by simp [drawLength, bitLength, extraBytes]
  have hdrawn := ncard_drawnStrings 1000
  rw [hlength] at hdrawn
  have haccepted : (acceptedStrings 1000).ncard = 1000 :=
    ncard_acceptedStrings (by decide) (by rw [hlength]; decide)
  refine ⟨hdrawn, haccepted, ?_⟩
  rw [MakesProgress, hdrawn, haccepted]
  decide

end BioFire
