import BioFire.RejectionSampling
import Mathlib.Data.Set.Finite.List

/-!
# Uniform draws (`src/lib/security/secure_random.ts`)

The strings that make a sampling function return a given value. `randomBigIntRange` shifts the
result of `randomBigInt`, `randomScalar` calls it again for a zero; a call is followed with the
number of strings that it has read.

* `existsUnique_accepted`: one string makes one iteration return a given value;
* `randomBigIntRange_returns_iff`, `randomScalar_returns_iff`: a call returns the first number
  of its range that is drawn;
* `ncard_rangeDraws`, `ncard_scalarDraws`: how many sequences of strings give a value.
-/

namespace BioFire

open Outcome

/-! ## The callers of the loop -/

/-- `randomBigInt` on the strings from the `k`-th on, with the number of the next string. -/
def randomBigIntFrom (max : ℤ) (generator : Draws max) (fuel k : ℕ) : Outcome JSError (ℤ × ℕ) :=
  if max ≤ 0 then .throws ⟨.CSPRNGError, js "max must be positive"⟩
  else Outcome.loop (fun k => (sampleRound max generator k).bind fun
    | .inl k' => .returns (.inl k')
    | .inr result => .returns (.inr (result, k + 1))) fuel k

def randomBigIntRange (min max : ℤ) (generator : Draws (max - min)) (fuel : ℕ) :
    Outcome JSError (ℤ × ℕ) :=
  if max ≤ min then .throws ⟨.CSPRNGError, js "min must be less than max"⟩
  else (randomBigIntFrom (max - min) generator fuel 0).bind fun (result, k) =>
    .returns (min + result, k)

/-- One turn of the `do` loop of `randomScalar`. -/
def scalarRound (curveOrder : ℤ) (generator : Draws curveOrder) (fuel k : ℕ) :
    Outcome JSError (ℕ ⊕ (ℤ × ℕ)) :=
  (randomBigIntFrom curveOrder generator fuel k).bind fun (scalar, k') =>
    if scalar = 0 then .returns (.inl k') else .returns (.inr (scalar, k'))

def randomScalar (curveOrder : ℤ) (generator : Draws curveOrder) (fuel : ℕ) :
    Outcome JSError (ℤ × ℕ) :=
  if curveOrder ≤ 1 then .throws ⟨.CSPRNGError, js "curveOrder must be > 1"⟩
  else Outcome.loop (scalarRound curveOrder generator fuel) fuel 0

/-- A string that one iteration draws. -/
abbrev DrawnString (max : ℤ) : Type := {bytes : Bytes // bytes.length = drawLength max}

/-- A generator that fills in these strings, one after the other, and then fails. -/
def supply {max : ℤ} (strings : List (DrawnString max)) : Draws max := fun k => strings[k]?

/-- The sequences of `n` strings that `randomBigIntRange` reads before it returns `v`. -/
def rangeDraws (min max : ℤ) (n : ℕ) (v : ℤ) : Set (List (DrawnString (max - min))) :=
  {strings | strings.length = n ∧ Returns (randomBigIntRange min max (supply strings)) (v, n)}

/-- The sequences of `n` strings that `randomScalar` reads before it returns `v`. -/
def scalarDraws (curveOrder : ℤ) (n : ℕ) (v : ℤ) : Set (List (DrawnString curveOrder)) :=
  {strings | strings.length = n ∧ Returns (randomScalar curveOrder (supply strings)) (v, n)}

/-! ## What a call returns -/

/-- The generator's `k`-th string is a number that satisfies `P`. -/
def DrawsNumber {max : ℤ} (generator : Draws max) (k : ℕ) (P : ℤ → Prop) : Prop :=
  ∃ bytes, generator k = some bytes ∧ P (bytesToBigInt bytes.1)

variable {max : ℤ} {generator : Draws max}

theorem sampleRound_rejects_iff {k : ℕ} :
    sampleRound max generator k = .returns (.inl (k + 1)) ↔
      drawLength max ≤ 65536 ∧ DrawsNumber generator k (max ≤ ·) := by
  rw [sampleRound]
  constructor
  · intro h
    obtain ⟨bytes, hbytes, h⟩ := Outcome.bind_eq_returns h
    obtain ⟨-, hle, hbytes⟩ := secureRandomBytes_eq_ok.mp (Outcome.ofExcept_eq_returns hbytes)
    dsimp only at h
    split at h
    · cases h
    next hlt => exact ⟨hle, bytes, hbytes, not_lt.mp hlt⟩
  · rintro ⟨hle, bytes, hbytes, hmax⟩
    rw [secureRandomBytes_eq_ok.mpr ⟨drawLength_pos max, hle, hbytes⟩]
    simp [hmax]

/-- **The accepted string of a number.** One string makes an iteration return it. -/
theorem existsUnique_accepted {v : ℤ} (hlength : drawLength max ≤ 65536) (hv : 0 ≤ v)
    (hmax : v < max) :
    ∃! bytes : DrawnString max, sampleRound max (fun _ => some bytes) 0 = .returns (.inr v) := by
  have hpow := lt_pow_drawLength max
  obtain ⟨bytes, hlen, hvalue⟩ :=
    exists_bytesToBigInt_eq (n := drawLength max) (v := v.toNat) (by omega)
  rw [Int.toNat_of_nonneg hv] at hvalue
  refine ⟨⟨bytes, hlen⟩, ?_, ?_⟩
  · exact sampleRound_accepts_iff.mpr ⟨hlength, _, rfl, hvalue, hmax⟩
  · intro bytes' h
    obtain ⟨-, bytes'', hdraw, hvalue', -⟩ := sampleRound_accepts_iff.mp h
    obtain rfl := Option.some.inj hdraw
    exact Subtype.ext (bytesToBigInt_inj (bytes'.2.trans hlen.symm) (hvalue'.trans hvalue.symm))

theorem sampleRound_mem {k : ℕ} {v : ℤ} (h : sampleRound max generator k = .returns (.inr v)) :
    0 ≤ v ∧ v < max := by
  obtain ⟨-, bytes, -, rfl, hlt⟩ := sampleRound_accepts_iff.mp h
  exact ⟨(bytesToBigInt_bounds bytes.1).1, hlt⟩

/-- `randomBigInt` reads strings up to the first number below `max`. -/
theorem randomBigIntFrom_returns_iff {fuel k k' : ℕ} {v : ℤ} :
    randomBigIntFrom max generator fuel k = .returns (v, k') ↔
      0 < max ∧ drawLength max ≤ 65536 ∧ ∃ n < fuel, k' = k + n + 1 ∧
        (∀ j < n, DrawsNumber generator (k + j) (max ≤ ·)) ∧
        DrawsNumber generator (k + n) (fun x => x = v ∧ v < max) := by
  rw [randomBigIntFrom]
  split
  next hmax =>
    refine iff_of_false (by simp) ?_
    rintro ⟨hpos, -⟩
    omega
  next hmax =>
    have hnext : ∀ {k k' : ℕ}, ((sampleRound max generator k).bind fun
        | .inl k' => .returns (.inl k')
        | .inr result => .returns (.inr (result, k + 1)) : Outcome JSError (ℕ ⊕ (ℤ × ℕ))) =
          .returns (.inl k') ↔ sampleRound max generator k = .returns (.inl k') := by
      intro k k'
      rcases sampleRound max generator k with _ | _ | (_ | _) <;> simp
    have hlast : ∀ {k k' : ℕ} {v : ℤ}, ((sampleRound max generator k).bind fun
        | .inl k' => .returns (.inl k')
        | .inr result => .returns (.inr (result, k + 1)) : Outcome JSError (ℕ ⊕ (ℤ × ℕ))) =
          .returns (.inr (v, k')) ↔
            sampleRound max generator k = .returns (.inr v) ∧ k' = k + 1 := by
      intro k k' v
      rcases sampleRound max generator k with _ | _ | (_ | _) <;> simp [eq_comm]
    rw [loop_counter_returns_iff fun h => sampleRound_rejects (hnext.mp h)]
    simp only [hnext, hlast, sampleRound_rejects_iff, sampleRound_accepts_iff]
    constructor
    · rintro ⟨n, hn, hbefore, ⟨hle, hdraw⟩, hk'⟩
      exact ⟨by omega, hle, n, hn, hk', fun j hj => (hbefore j hj).2, hdraw⟩
    · rintro ⟨-, hle, n, hn, hk', hbefore, hdraw⟩
      exact ⟨n, hn, fun j hj => ⟨hle, hbefore j hj⟩, ⟨hle, hdraw⟩, hk'⟩

theorem randomBigInt_returns_iff_from {v : ℤ} :
    Returns (randomBigInt max generator) v ↔
      ∃ k, Returns (fun fuel => randomBigIntFrom max generator fuel 0) (v, k) := by
  rw [randomBigInt_returns_iff]
  simp only [Returns, randomBigIntFrom_returns_iff, sampleRound_rejects_iff,
    sampleRound_accepts_iff, Nat.zero_add]
  constructor
  · rintro ⟨hmax, n, hbefore, hle, hdraw⟩
    exact ⟨n + 1, n + 1, hmax, hle, n, by omega, rfl, fun j hj => (hbefore j hj).2, hdraw⟩
  · rintro ⟨k, fuel, hmax, hle, n, -, -, hbefore, hdraw⟩
    exact ⟨hmax, n, fun j hj => ⟨hle, hbefore j hj⟩, hle, hdraw⟩

/-- **`randomBigIntRange` returns the first number of the range**, shifted by `min`. -/
theorem randomBigIntRange_returns_iff {min max : ℤ} {generator : Draws (max - min)} {v : ℤ}
    {k : ℕ} :
    Returns (randomBigIntRange min max generator) (v, k) ↔
      drawLength (max - min) ≤ 65536 ∧ ∃ n, k = n + 1 ∧
        (∀ j < n, DrawsNumber generator j (max - min ≤ ·)) ∧
        DrawsNumber generator n (fun x => x = v - min ∧ v < max) := by
  have hcall : ∀ fuel, randomBigIntRange min max generator fuel = .returns (v, k) ↔
      min < max ∧ randomBigIntFrom (max - min) generator fuel 0 = .returns (v - min, k) := by
    intro fuel
    rw [randomBigIntRange]
    split
    next hmax => exact iff_of_false (by simp) fun h => absurd h.1 (not_lt.mpr hmax)
    next hmax =>
      rcases randomBigIntFrom (max - min) generator fuel 0 with _ | _ | ⟨x, k'⟩
      · simp
      · simp
      · simp only [bind_returns, Outcome.returns.injEq, Prod.mk.injEq]
        omega
  simp only [Returns, hcall, randomBigIntFrom_returns_iff, Nat.zero_add]
  constructor
  · rintro ⟨fuel, -, -, hle, n, -, hk, hbefore, bytes, hbytes, hx, hlt⟩
    exact ⟨hle, n, hk, hbefore, bytes, hbytes, hx, by omega⟩
  · rintro ⟨hle, n, hk, hbefore, bytes, hbytes, hx, hlt⟩
    have hpos := (bytesToBigInt_bounds bytes.1).1
    exact ⟨n + 1, by omega, by omega, hle, n, by omega, hk, hbefore, bytes, hbytes, hx, by omega⟩

section Scalar

variable {curveOrder : ℤ} {generator : Draws curveOrder}

/-- What the loop of `randomScalar` passes over. -/
def NoScalar (curveOrder x : ℤ) : Prop := curveOrder ≤ x ∨ x = 0

theorem scalarRound_next_iff {fuel k k' : ℕ} :
    scalarRound curveOrder generator fuel k = .returns (.inl k') ↔
      randomBigIntFrom curveOrder generator fuel k = .returns (0, k') := by
  rw [scalarRound]
  rcases randomBigIntFrom curveOrder generator fuel k with _ | _ | ⟨x, k''⟩
  · simp
  · simp
  · rw [bind_returns]
    by_cases hx : x = 0 <;> simp [hx]

theorem scalarRound_last_iff {fuel k k' : ℕ} {v : ℤ} :
    scalarRound curveOrder generator fuel k = .returns (.inr (v, k')) ↔
      randomBigIntFrom curveOrder generator fuel k = .returns (v, k') ∧ v ≠ 0 := by
  rw [scalarRound]
  rcases randomBigIntFrom curveOrder generator fuel k with _ | _ | ⟨x, k''⟩
  · simp
  · simp
  · rw [bind_returns]
    by_cases hx : x = 0
    · simp only [hx, if_pos, Outcome.returns.injEq, reduceCtorEq, Prod.mk.injEq, false_iff]
      rintro ⟨⟨rfl, -⟩, hv⟩
      exact hv rfl
    · simp only [hx, if_false, Outcome.returns.injEq, Sum.inr.injEq, Prod.mk.injEq]
      constructor
      · rintro ⟨rfl, rfl⟩
        exact ⟨⟨rfl, rfl⟩, hx⟩
      · exact And.left

/-- What a result of the loop read: strings that give no scalar, and then the result. -/
theorem loop_scalarRound_reads {inner fuel k k' : ℕ} {v : ℤ}
    (h : Outcome.loop (scalarRound curveOrder generator inner) fuel k = .returns (v, k')) :
    drawLength curveOrder ≤ 65536 ∧ ∃ n, k' = k + n + 1 ∧
      (∀ j < n, DrawsNumber generator (k + j) (NoScalar curveOrder)) ∧
      DrawsNumber generator (k + n) (fun x => x = v ∧ v < curveOrder ∧ v ≠ 0) := by
  induction fuel generalizing k with
  | zero => cases h
  | succ fuel ih =>
    rw [Outcome.loop] at h
    obtain ⟨next, hround, h⟩ := Outcome.bind_eq_returns h
    have hpass : ∀ {i}, DrawsNumber generator i (curveOrder ≤ ·) →
        DrawsNumber generator i (NoScalar curveOrder) := by
      rintro i ⟨bytes, hbytes, hx⟩
      exact ⟨bytes, hbytes, Or.inl hx⟩
    cases next with
    | inl k₁ =>
      obtain ⟨-, -, n₁, -, rfl, hbefore₁, bytes, hbytes, hzero, -⟩ :=
        randomBigIntFrom_returns_iff.mp (scalarRound_next_iff.mp hround)
      obtain ⟨hle, n, rfl, hbefore, hdraw⟩ := ih h
      refine ⟨hle, n₁ + 1 + n, by omega, fun j hj => ?_, ?_⟩
      · rcases lt_trichotomy j n₁ with hlt | rfl | hgt
        · exact hpass (hbefore₁ j hlt)
        · exact ⟨bytes, hbytes, Or.inr hzero⟩
        · have hdraw' := hbefore (j - (n₁ + 1)) (by omega)
          rwa [show k + n₁ + 1 + (j - (n₁ + 1)) = k + j by omega] at hdraw'
      · rwa [show k + (n₁ + 1 + n) = k + n₁ + 1 + n by omega]
    | inr result =>
      cases h
      obtain ⟨hread, hv⟩ := scalarRound_last_iff.mp hround
      obtain ⟨-, hle, n, -, hk', hbefore, bytes, hbytes, hx, hlt⟩ :=
        randomBigIntFrom_returns_iff.mp hread
      exact ⟨hle, n, hk', fun j hj => hpass (hbefore j hj), bytes, hbytes, hx, hlt, hv⟩

theorem loop_scalarRound_of_reads (horder : 0 < curveOrder) (hle : drawLength curveOrder ≤ 65536)
    {inner fuel k n : ℕ} {v : ℤ} (hinner : n < inner) (hfuel : n < fuel)
    (hbefore : ∀ j < n, DrawsNumber generator (k + j) (NoScalar curveOrder))
    (hdraw : DrawsNumber generator (k + n) (fun x => x = v ∧ v < curveOrder ∧ v ≠ 0)) :
    Outcome.loop (scalarRound curveOrder generator inner) fuel k = .returns (v, k + n + 1) := by
  induction fuel generalizing k n with
  | zero => omega
  | succ fuel ih =>
    obtain ⟨bytes, hbytes, rfl, hlt, hv⟩ := hdraw
    rw [Outcome.loop]
    by_cases hzero : ∃ m < n, DrawsNumber generator (k + m) (· = 0)
    · classical
      obtain ⟨hm, bytes₀, hbytes₀, hzero₀⟩ := Nat.find_spec hzero
      have hfirst : ∀ j < Nat.find hzero, DrawsNumber generator (k + j) (curveOrder ≤ ·) := by
        intro j hj
        obtain ⟨bytes', hbytes', hnone⟩ := hbefore j (by omega)
        refine ⟨bytes', hbytes', hnone.resolve_right fun hx => ?_⟩
        exact Nat.find_min hzero hj ⟨by omega, bytes', hbytes', hx⟩
      generalize Nat.find hzero = m at *
      rw [scalarRound_next_iff.mpr (randomBigIntFrom_returns_iff.mpr ⟨horder, hle, m, by omega, rfl,
        hfirst, bytes₀, hbytes₀, hzero₀, horder⟩), bind_returns]
      have hrest := ih (k := k + m + 1) (n := n - (m + 1)) (by omega) (by omega)
        (fun j hj => ?_) ⟨bytes, ?_, rfl, hlt, hv⟩
      · rwa [show k + m + 1 + (n - (m + 1)) + 1 = k + n + 1 by omega] at hrest
      · have hbefore' := hbefore (m + 1 + j) (by omega)
        rwa [show k + (m + 1 + j) = k + m + 1 + j by omega] at hbefore'
      · rwa [show k + m + 1 + (n - (m + 1)) = k + n by omega]
    · have hrejects : ∀ j < n, DrawsNumber generator (k + j) (curveOrder ≤ ·) := by
        intro j hj
        obtain ⟨bytes', hbytes', hnone⟩ := hbefore j hj
        exact ⟨bytes', hbytes', hnone.resolve_right fun hx =>
          hzero ⟨j, hj, bytes', hbytes', hx⟩⟩
      rw [scalarRound_last_iff.mpr ⟨randomBigIntFrom_returns_iff.mpr ⟨horder, hle, n, hinner, rfl,
        hrejects, bytes, hbytes, rfl, hlt⟩, hv⟩, bind_returns]

/-- **`randomScalar` returns the first scalar.** -/
theorem randomScalar_returns_iff {v : ℤ} {k : ℕ} (horder : 1 < curveOrder) :
    Returns (randomScalar curveOrder generator) (v, k) ↔
      drawLength curveOrder ≤ 65536 ∧ ∃ n, k = n + 1 ∧
        (∀ j < n, DrawsNumber generator j (NoScalar curveOrder)) ∧
        DrawsNumber generator n (fun x => x = v ∧ v < curveOrder ∧ v ≠ 0) := by
  simp only [Returns, randomScalar, if_neg (not_le.mpr horder)]
  constructor
  · rintro ⟨fuel, h⟩
    obtain ⟨hle, n, rfl, hbefore, hdraw⟩ := loop_scalarRound_reads h
    simp only [Nat.zero_add] at hbefore hdraw ⊢
    exact ⟨hle, n, rfl, hbefore, hdraw⟩
  · rintro ⟨hle, n, rfl, hbefore, hdraw⟩
    refine ⟨n + 1, ?_⟩
    have h : Outcome.loop (scalarRound curveOrder generator (n + 1)) (n + 1) 0 =
        .returns (v, 0 + n + 1) := by
      refine loop_scalarRound_of_reads (by omega) hle n.lt_succ_self n.lt_succ_self
        (fun j hj => ?_) ?_
      · rw [Nat.zero_add]
        exact hbefore j hj
      · rwa [Nat.zero_add]
    rwa [Nat.zero_add] at h

end Scalar

/-! ## Counting sequences of strings -/

section Counting

variable {α : Type} {A : Set α}

theorem ncard_lists (A : Set α) (n : ℕ) :
    {xs : List α | xs.length = n ∧ ∀ x ∈ xs, x ∈ A}.ncard = A.ncard ^ n := by
  induction n with
  | zero =>
    rw [pow_zero, Set.ncard_eq_one]
    refine ⟨[], ?_⟩
    ext xs
    simp +contextual
  | succ n ih =>
    have himage : {xs : List α | xs.length = n + 1 ∧ ∀ x ∈ xs, x ∈ A} =
        (fun p : α × List α => p.1 :: p.2) '' (A ×ˢ {xs | xs.length = n ∧ ∀ x ∈ xs, x ∈ A}) := by
      ext xs
      cases xs with
      | nil => simp
      | cons x xs => simp [and_left_comm]
    have hinj : Function.Injective (fun p : α × List α => p.1 :: p.2) := by
      rintro ⟨x, xs⟩ ⟨y, ys⟩ h
      simpa using h
    rw [himage, Set.ncard_image_of_injective _ hinj, Set.ncard_prod, ih, pow_succ, mul_comm]

/-- Sequences that end with `a`, all members before it in `A`. -/
theorem ncard_lists_concat (A : Set α) (a : α) (n : ℕ) :
    {xs : List α | ∃ ys, xs = ys ++ [a] ∧ ys.length = n ∧ ∀ y ∈ ys, y ∈ A}.ncard =
      A.ncard ^ n := by
  have himage : {xs : List α | ∃ ys, xs = ys ++ [a] ∧ ys.length = n ∧ ∀ y ∈ ys, y ∈ A} =
      (· ++ [a]) '' {ys : List α | ys.length = n ∧ ∀ y ∈ ys, y ∈ A} := by
    ext xs
    constructor
    · rintro ⟨ys, rfl, hys⟩
      exact ⟨ys, hys, rfl⟩
    · rintro ⟨ys, hys, rfl⟩
      exact ⟨ys, rfl, hys⟩
  rw [himage, Set.ncard_image_of_injective _ (List.append_left_injective [a]), ncard_lists]

/-- A sequence of `n + 1` members, cut off before the last one. -/
theorem length_succ_iff {xs : List α} {n : ℕ} {a : α} :
    (xs.length = n + 1 ∧ (∀ j < n, ∃ x, xs[j]? = some x ∧ x ∈ A) ∧ xs[n]? = some a) ↔
      ∃ ys, xs = ys ++ [a] ∧ ys.length = n ∧ ∀ y ∈ ys, y ∈ A := by
  constructor
  · rintro ⟨hlen, hbefore, hlast⟩
    rcases xs.eq_nil_or_concat with rfl | ⟨ys, b, rfl⟩
    · simp at hlen
    · rw [List.concat_eq_append, List.length_append, List.length_singleton] at hlen
      obtain rfl : ys.length = n := by omega
      rw [List.concat_eq_append, List.getElem?_concat_length, Option.some.injEq] at hlast
      refine ⟨ys, by rw [List.concat_eq_append, hlast], rfl, fun y hy => ?_⟩
      obtain ⟨j, hj, rfl⟩ := List.getElem_of_mem hy
      obtain ⟨x, hx, hmem⟩ := hbefore j hj
      rw [List.concat_eq_append, List.getElem?_append_left hj, List.getElem?_eq_getElem hj,
        Option.some.injEq] at hx
      rwa [hx]
  · rintro ⟨ys, rfl, rfl, hys⟩
    refine ⟨by simp, fun j hj => ⟨ys[j], ?_, hys _ (List.getElem_mem hj)⟩, by simp⟩
    rw [List.getElem?_append_left hj, List.getElem?_eq_getElem hj]

end Counting

instance (max : ℤ) : Finite (DrawnString max) := by
  refine Set.finite_of_ncard_pos (s := {bytes : Bytes | bytes.length = drawLength max}) ?_
  rw [show {bytes : Bytes | bytes.length = drawLength max} = drawnStrings max from rfl,
    ncard_drawnStrings]
  positivity

theorem ncard_strings_not_mem {lo hi : ℕ} (hlo : lo ≤ hi) (hhi : hi ≤ max.natAbs) :
    {bytes : DrawnString max | ¬(lo ≤ bytesToBigInt bytes.1 ∧ bytesToBigInt bytes.1 < hi)}.ncard =
      256 ^ drawLength max - (hi - lo) := by
  have hpow := lt_pow_drawLength max
  have hall : Nat.card (DrawnString max) = 256 ^ drawLength max := ncard_drawnStrings max
  have hbelow : ∀ m ≤ hi, {bytes : DrawnString max | bytesToBigInt bytes.1 < m}.ncard = m := by
    intro m hm
    rw [← Set.ncard_image_of_injective _ Subtype.val_injective]
    refine Eq.trans ?_ (ncard_bytes_lt (n := drawLength max) (m := m) (by omega))
    congr 1
    ext bytes
    simp [and_comm]
  have hrange : {bytes : DrawnString max |
      ¬(lo ≤ bytesToBigInt bytes.1 ∧ bytesToBigInt bytes.1 < hi)} =
        ({bytes : DrawnString max | bytesToBigInt bytes.1 < hi} \
          {bytes | bytesToBigInt bytes.1 < lo})ᶜ := by
    ext bytes
    simp [and_comm]
  have hsub : {bytes : DrawnString max | bytesToBigInt bytes.1 < lo} ⊆
      {bytes | bytesToBigInt bytes.1 < hi} := by
    intro bytes hbytes
    rw [Set.mem_ofPred_eq] at hbytes ⊢
    omega
  rw [hrange, Set.ncard_compl, hall, Set.ncard_sdiff hsub, hbelow hi le_rfl, hbelow lo hlo]

/-- Sequences that a call reads up to the first number that `P` does not hold of. -/
theorem ncard_reads {P : ℤ → Prop} {v : ℤ} (hv : 0 ≤ v) (hmax : v < max) (n : ℕ) :
    {strings : List (DrawnString max) | strings.length = n + 1 ∧
        (∀ j < n, DrawsNumber (supply strings) j P) ∧
        DrawsNumber (supply strings) n (· = v)}.ncard =
      {bytes : DrawnString max | P (bytesToBigInt bytes.1)}.ncard ^ n := by
  have hpow := lt_pow_drawLength max
  obtain ⟨bytes, hlen, hvalue⟩ :=
    exists_bytesToBigInt_eq (n := drawLength max) (v := v.toNat) (by omega)
  rw [Int.toNat_of_nonneg hv] at hvalue
  rw [← ncard_lists_concat _ ⟨bytes, hlen⟩ n]
  congr 1
  ext strings
  rw [Set.mem_ofPred_eq, Set.mem_ofPred_eq, ← length_succ_iff]
  have hlast : DrawsNumber (supply strings) n (· = v) ↔ strings[n]? = some ⟨bytes, hlen⟩ := by
    constructor
    · rintro ⟨bytes', hbytes', hvalue'⟩
      obtain rfl := bytesToBigInt_inj (bytes'.2.trans hlen.symm) (hvalue'.trans hvalue.symm)
      exact hbytes'
    · exact fun h => ⟨⟨bytes, hlen⟩, h, hvalue⟩
  rw [hlast]
  rfl

/-- **Draws of `randomBigIntRange`.** Every value has the same number of sequences. -/
theorem ncard_rangeDraws {min max v : ℤ} (hmin : min ≤ v) (hmax : v < max)
    (hlength : drawLength (max - min) ≤ 65536) (n : ℕ) :
    (rangeDraws min max (n + 1) v).ncard =
      (256 ^ drawLength (max - min) - (max - min).toNat) ^ n := by
  have hpassed := @ncard_strings_not_mem (max - min) _ _ (Nat.zero_le (max - min).toNat)
    (by omega)
  rw [Nat.sub_zero] at hpassed
  rw [← hpassed]
  refine Eq.trans ?_ (ncard_reads (P := fun x => ¬(_ ≤ x ∧ x < _)) (v := v - min) (by omega)
    (by omega) n)
  rw [rangeDraws]
  congr 1
  ext strings
  simp only [Set.mem_ofPred_eq, randomBigIntRange_returns_iff, Nat.add_right_cancel_iff]
  constructor
  · rintro ⟨hlen, -, m, rfl, hbefore, bytes, hbytes, hx, -⟩
    refine ⟨hlen, fun j hj => ?_, bytes, hbytes, hx⟩
    obtain ⟨bytes', hbytes', hx'⟩ := hbefore j hj
    exact ⟨bytes', hbytes', by omega⟩
  · rintro ⟨hlen, hbefore, bytes, hbytes, hx⟩
    refine ⟨hlen, hlength, n, rfl, fun j hj => ?_, bytes, hbytes, hx, hmax⟩
    obtain ⟨bytes', hbytes', hx'⟩ := hbefore j hj
    have hpos := (bytesToBigInt_bounds bytes'.1).1
    exact ⟨bytes', hbytes', by omega⟩

/-- **Draws of `randomScalar`.** Every scalar has the same number of sequences. -/
theorem ncard_scalarDraws {curveOrder v : ℤ} (hv : 1 ≤ v) (horder : v < curveOrder)
    (hlength : drawLength curveOrder ≤ 65536) (n : ℕ) :
    (scalarDraws curveOrder (n + 1) v).ncard =
      (256 ^ drawLength curveOrder - (curveOrder - 1).toNat) ^ n := by
  have hpassed := @ncard_strings_not_mem curveOrder 1 curveOrder.toNat (by omega) (by omega)
  rw [show curveOrder.toNat - 1 = (curveOrder - 1).toNat by omega] at hpassed
  rw [← hpassed]
  refine Eq.trans ?_ (ncard_reads (P := fun x => ¬(_ ≤ x ∧ x < _)) (v := v) (by omega) horder n)
  rw [scalarDraws]
  congr 1
  ext strings
  simp only [Set.mem_ofPred_eq, randomScalar_returns_iff (hv.trans_lt horder),
    Nat.add_right_cancel_iff]
  constructor
  · rintro ⟨hlen, -, m, rfl, hbefore, bytes, hbytes, hx, -⟩
    refine ⟨hlen, fun j hj => ?_, bytes, hbytes, hx⟩
    obtain ⟨bytes', hbytes', hx'⟩ := hbefore j hj
    rw [NoScalar] at hx'
    exact ⟨bytes', hbytes', by omega⟩
  · rintro ⟨hlen, hbefore, bytes, hbytes, hx⟩
    refine ⟨hlen, hlength, n, rfl, fun j hj => ?_, bytes, hbytes, hx, horder, by omega⟩
    obtain ⟨bytes', hbytes', hx'⟩ := hbefore j hj
    have hpos := (bytesToBigInt_bounds bytes'.1).1
    refine ⟨bytes', hbytes', ?_⟩
    rw [NoScalar]
    omega

/-! ## No bias -/

theorem lt_drawLength {n : ℕ} (h : 2 ^ (8 * n) ≤ max) : n + extraBytes < drawLength max := by
  have hbits : max.natAbs < 2 ^ bitLength max := Nat.lt_base_pow_length_digits (by decide)
  have hpow : 2 ^ (8 * n) ≤ max.natAbs := by
    have hcast : ((2 ^ (8 * n) : ℕ) : ℤ) ≤ max := by exact_mod_cast h
    omega
  have hlt := (Nat.pow_lt_pow_iff_right (by decide)).mp (hpow.trans_lt hbits)
  rw [drawLength]
  omega

theorem rangeDraws_finite (min max : ℤ) (n : ℕ) (v : ℤ) : (rangeDraws min max n v).Finite :=
  (List.finite_length_eq _ n).subset fun _ h => h.1

theorem scalarDraws_finite (curveOrder : ℤ) (n : ℕ) (v : ℤ) :
    (scalarDraws curveOrder n v).Finite :=
  (List.finite_length_eq _ n).subset fun _ h => h.1

theorem rangeDraws_zero (min max v : ℤ) : rangeDraws min max 0 v = ∅ := by
  refine Set.eq_empty_of_forall_notMem ?_
  rintro strings ⟨-, h⟩
  obtain ⟨-, n, hn, -⟩ := randomBigIntRange_returns_iff.mp h
  omega

theorem scalarDraws_zero {curveOrder : ℤ} (horder : 1 < curveOrder) (v : ℤ) :
    scalarDraws curveOrder 0 v = ∅ := by
  refine Set.eq_empty_of_forall_notMem ?_
  rintro strings ⟨-, h⟩
  obtain ⟨-, n, hn, -⟩ := (randomScalar_returns_iff horder).mp h
  omega

theorem rangeDraws_too_long {min max : ℤ} (hlength : ¬drawLength (max - min) ≤ 65536) (n : ℕ)
    (v : ℤ) : rangeDraws min max n v = ∅ :=
  Set.eq_empty_of_forall_notMem fun _ h => hlength (randomBigIntRange_returns_iff.mp h.2).1

theorem scalarDraws_too_long {curveOrder : ℤ} (horder : 1 < curveOrder)
    (hlength : ¬drawLength curveOrder ≤ 65536) (n : ℕ) (v : ℤ) :
    scalarDraws curveOrder n v = ∅ :=
  Set.eq_empty_of_forall_notMem fun _ h => hlength ((randomScalar_returns_iff horder).mp h.2).1

theorem rangeDraws_equal {min max v v' : ℤ} (hv : min ≤ v ∧ v < max) (hv' : min ≤ v' ∧ v' < max)
    (n : ℕ) : (rangeDraws min max n v).ncard = (rangeDraws min max n v').ncard := by
  by_cases hlength : drawLength (max - min) ≤ 65536
  · cases n with
    | zero => rw [rangeDraws_zero, rangeDraws_zero]
    | succ n => rw [ncard_rangeDraws hv.1 hv.2 hlength, ncard_rangeDraws hv'.1 hv'.2 hlength]
  · rw [rangeDraws_too_long hlength, rangeDraws_too_long hlength]

theorem scalarDraws_equal {curveOrder v v' : ℤ} (hv : 1 ≤ v ∧ v < curveOrder)
    (hv' : 1 ≤ v' ∧ v' < curveOrder) (n : ℕ) :
    (scalarDraws curveOrder n v).ncard = (scalarDraws curveOrder n v').ncard := by
  have horder : 1 < curveOrder := hv.1.trans_lt hv.2
  by_cases hlength : drawLength curveOrder ≤ 65536
  · cases n with
    | zero => rw [scalarDraws_zero horder, scalarDraws_zero horder]
    | succ n => rw [ncard_scalarDraws hv.1 hv.2 hlength, ncard_scalarDraws hv'.1 hv'.2 hlength]
  · rw [scalarDraws_too_long horder hlength, scalarDraws_too_long horder hlength]

/-- **No modulo bias.** A draw that the generator grants is accepted for exactly one string for
each value, and the callers give every value of their range from equally many draws. -/
theorem sampling_unbiased :
    (∀ max : ℤ, 1 ≤ max →
      (drawLength max ≤ 65536 → ∀ v, 0 ≤ v → v < max → ∃! bytes : DrawnString max,
        sampleRound max (fun _ => some bytes) 0 = .returns (.inr v)) ∧
      ∀ (generator : Draws max) (k : ℕ) (v : ℤ),
        sampleRound max generator k = .returns (.inr v) → 0 ≤ v ∧ v < max) ∧
    (∀ min max : ℤ, min < max → ∀ v v', min ≤ v ∧ v < max → min ≤ v' ∧ v' < max → ∀ n,
      (rangeDraws min max n v).Finite ∧
        (rangeDraws min max n v).ncard = (rangeDraws min max n v').ncard) ∧
    (∀ curveOrder : ℤ, 1 < curveOrder → ∀ v v', 1 ≤ v ∧ v < curveOrder →
      1 ≤ v' ∧ v' < curveOrder → ∀ n,
      (scalarDraws curveOrder n v).Finite ∧
        (scalarDraws curveOrder n v).ncard = (scalarDraws curveOrder n v').ncard) := by
  refine ⟨fun max hmax => ⟨?_, ?_⟩, fun min max hlt v v' hv hv' n => ?_,
    fun curveOrder horder v v' hv hv' n => ?_⟩
  · exact fun hlength v hv hlt => existsUnique_accepted hlength hv hlt
  · exact fun generator k v h => sampleRound_mem h
  · exact ⟨rangeDraws_finite min max n v, rangeDraws_equal hv hv' n⟩
  · exact ⟨scalarDraws_finite curveOrder n v, scalarDraws_equal hv hv' n⟩

/-- A byte, a die and the scalars of a curve of 13 points. -/
theorem sampling_unbiased_small :
    (∃! bytes : DrawnString 256, sampleRound 256 (fun _ => some bytes) 0 = .returns (.inr 17)) ∧
      (rangeDraws 1 7 2 1).ncard = (rangeDraws 1 7 2 6).ncard ∧
      (scalarDraws 13 3 1).ncard = (scalarDraws 13 3 12).ncard := by
  have hlength : drawLength 256 ≤ 65536 := by simp [drawLength, bitLength, extraBytes]
  obtain ⟨hone, hrange, hscalar⟩ := sampling_unbiased
  exact ⟨(hone 256 (by decide)).1 hlength 17 (by decide) (by decide),
    (hrange 1 7 (by decide) 1 6 (by decide) (by decide) 2).2,
    (hscalar 13 (by decide) 1 12 (by decide) (by decide) 3).2⟩

/-- A bound of 524225 bits has no accepted string, although 0 lies below it. -/
theorem sampleRound_refuses_long_draws :
    ¬∃ bytes : DrawnString (2 ^ (8 * 65528)),
      sampleRound (2 ^ (8 * 65528)) (fun _ => some bytes) 0 = .returns (.inr 0) := by
  rintro ⟨bytes, h⟩
  have hle := (sampleRound_accepts_iff.mp h).1
  have hlt : 65528 + extraBytes < drawLength (2 ^ (8 * 65528)) := lt_drawLength le_rfl
  rw [extraBytes] at hlt
  omega

end BioFire
