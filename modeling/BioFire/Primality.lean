import BioFire.CountingLoops
import BioFire.ModularArithmetic
import BioFire.UniformDraws
import Mathlib.FieldTheory.Finite.Basic

/-!
# Primality (`isProbablePrime` of `src/lib/crypto/paillier.ts`)

The test of Miller and Rabin. Its bases come from `randomBigIntRange`, which `paillier.ts`
uses without importing it: the function of `secure_random.ts`. The bases are a parameter, one
for each call.

* `exists_pow_eq_neg_one`: the square roots of one, taken again and again;
* `compositeRound_eq`: which bases find `n` composite;
* `passesRound_of_prime`, `isProbablePrime_of_prime`: none does when `n` is prime.
-/

namespace BioFire

open Outcome

/-! ## The test -/

/-- `r` and `d`, halved while it is even; `d` is positive there. -/
def oddPart (r d : ℕ) : ℕ × ℕ :=
  if _h : d ≠ 0 ∧ d % 2 = 0 then oddPart (r + 1) (d / 2) else (r, d)
termination_by d
decreasing_by omega

/-- `randomBigIntRange(min, max)`, which returns `base` when the range is not empty. -/
def rangeDraw (min max base : ℤ) : Except JSError ℤ :=
  if max ≤ min then .error ⟨.CSPRNGError, js "min must be less than max"⟩ else .ok base

/-- The loop over `j`, whether `n` stays `composite`. `r` counts bits of `n`, so `Number(r)` is
exact. -/
def squaresLoop (n : ℤ) : ℕ → ℤ → Except JSError Bool
  | 0, _ => .ok true
  | j + 1, x => do
    let x ← modPow x 2 n
    if x = n - 1 then return false else squaresLoop n j x

/-- One round with the base `a`: whether it finds `n` composite. -/
def compositeRound (n : ℤ) (r d : ℕ) (a : ℤ) : Except JSError Bool := do
  let x ← modPow a d n
  if x = 1 ∨ x = n - 1 then return false else squaresLoop n (r - 1) x

/-- One turn of the loop over `i`, with the number of bases drawn. -/
def primalityRound (n : ℤ) (k : JSNumber) (r d : ℕ) (bases : ℕ → ℤ) (s : JSNumber × ℕ) :
    Outcome JSError ((JSNumber × ℕ) ⊕ Bool) :=
  if s.1.lt k then
    (Outcome.ofExcept (rangeDraw 2 (n - 2) (bases s.2) >>= compositeRound n r d)).bind
      fun composite =>
        if composite then .returns (.inr false)
        else .returns (.inl (s.1.add (.finite 1), s.2 + 1))
  else .returns (.inr true)

def isProbablePrime (n : ℤ) (k : JSNumber) (bases : ℕ → ℤ) (fuel : ℕ) : Outcome JSError Bool :=
  if n < 2 then .returns false
  else if n = 2 ∨ n = 3 then .returns true
  else if n.tmod 2 = 0 then .returns false
  else
    let (r, d) := oddPart 0 (n - 1).toNat
    Outcome.loop (primalityRound n k r d bases) fuel (.finite 0, 0)

/-- A call of `randomBigIntRange` that returns has drawn a base in its range. -/
theorem rangeDraw_of_returns {min max v : ℤ} {generator : Draws (max - min)} {used : ℕ}
    (h : Returns (randomBigIntRange min max generator) (v, used)) :
    rangeDraw min max v = .ok v ∧ min ≤ v ∧ v < max := by
  obtain ⟨-, n, -, -, bytes, -, hvalue, hmax⟩ := randomBigIntRange_returns_iff.mp h
  have hpos := (bytesToBigInt_bounds bytes.1).1
  rw [hvalue] at hpos
  exact ⟨if_neg (by omega), by omega, hmax⟩

/-! ## Powers of two -/

theorem oddPart_spec (r d : ℕ) (hd : 0 < d) :
    2 ^ (oddPart r d).1 * (oddPart r d).2 = 2 ^ r * d ∧ (oddPart r d).2 % 2 = 1 := by
  induction r, d using oddPart.induct with
  | case1 r d heven ih =>
    obtain ⟨hprod, hodd⟩ := ih (by omega)
    rw [oddPart, dif_pos heven]
    refine ⟨?_, hodd⟩
    rw [hprod, pow_succ, mul_assoc, Nat.mul_div_cancel' (Nat.dvd_of_mod_eq_zero heven.2)]
  | case2 r d hodd =>
    rw [oddPart, dif_neg hodd]
    exact ⟨rfl, by omega⟩

/-- **Square roots of one.** Where the only ones are `1` and `-1`, a power that reaches `1` by
squaring began there or went through `-1`. -/
theorem exists_pow_eq_neg_one {R : Type*} [CommRing R] [NoZeroDivisors R] {y : R} {r : ℕ}
    (h : y ^ 2 ^ r = 1) : y = 1 ∨ ∃ j < r, y ^ 2 ^ j = -1 := by
  induction r with
  | zero =>
    left
    rwa [pow_zero, pow_one] at h
  | succ r ih =>
    rw [pow_succ, pow_mul, sq, mul_self_eq_one_iff] at h
    rcases h with hone | hneg
    · rcases ih hone with hbegan | ⟨j, hj, hneg⟩
      · exact Or.inl hbegan
      · exact Or.inr ⟨j, by omega, hneg⟩
    · exact Or.inr ⟨r, by omega, hneg⟩

/-! ## One round -/

/-- The base `a` does not find `n` composite. -/
def PassesRound (n : ℤ) (r d : ℕ) (a : ℤ) : Prop :=
  a ^ d % n = 1 ∨ ∃ j < r, (a ^ d) ^ 2 ^ j % n = n - 1

variable {n : ℤ}

theorem squaresLoop_eq (hn : 1 < n) (m : ℕ) (x : ℤ) :
    ∃ composite, squaresLoop n m x = .ok composite ∧
      (composite = false ↔ ∃ j < m, x ^ 2 ^ (j + 1) % n = n - 1) := by
  induction m generalizing x with
  | zero => exact ⟨true, rfl, by simp⟩
  | succ m ih =>
    have hsquare : modPow x 2 n = .ok (x ^ 2 % n) := modPow_ok (by decide) hn
    obtain ⟨composite, hloop, hcomposite⟩ := ih (x ^ 2 % n)
    have hnext : ∀ j, (x ^ 2 % n) ^ 2 ^ (j + 1) % n = x ^ 2 ^ (j + 2) % n := by
      intro j
      rw [pow_succ' 2 (j + 1), pow_mul]
      exact (Int.mod_modEq (x ^ 2) n).pow (2 ^ (j + 1))
    simp only [hnext] at hcomposite
    rw [squaresLoop, hsquare]
    by_cases hlast : x ^ 2 % n = n - 1
    · refine ⟨false, if_pos hlast, ?_⟩
      exact iff_of_true rfl ⟨0, by omega, by simpa using hlast⟩
    · refine ⟨composite, (if_neg hlast).trans hloop, hcomposite.trans ?_⟩
      constructor
      · rintro ⟨j, hj, hsq⟩
        exact ⟨j + 1, by omega, hsq⟩
      · rintro ⟨j, hj, hsq⟩
        cases j with
        | zero => exact absurd (by simpa using hsq) hlast
        | succ j => exact ⟨j, by omega, hsq⟩

/-- **One round.** It finds `n` composite exactly for the bases that do not pass. -/
theorem compositeRound_eq (hn : 1 < n) {r d : ℕ} (hr : 0 < r) (a : ℤ) :
    ∃ composite, compositeRound n r d a = .ok composite ∧
      (composite = false ↔ PassesRound n r d a) := by
  have hpow : modPow a d n = .ok (a ^ d % n) := modPow_ok (by omega) hn
  have hsquares : ∀ j, (a ^ d % n) ^ 2 ^ j % n = (a ^ d) ^ 2 ^ j % n :=
    fun j => (Int.mod_modEq (a ^ d) n).pow (2 ^ j)
  rw [compositeRound, hpow]
  by_cases hfirst : a ^ d % n = 1 ∨ a ^ d % n = n - 1
  · refine ⟨false, if_pos hfirst, iff_of_true rfl ?_⟩
    rcases hfirst with hone | hlast
    · exact Or.inl hone
    · exact Or.inr ⟨0, hr, by simpa using hlast⟩
  · obtain ⟨hone, hlast⟩ := not_or.mp hfirst
    obtain ⟨composite, hloop, hcomposite⟩ := squaresLoop_eq hn (r - 1) (a ^ d % n)
    refine ⟨composite, (if_neg hfirst).trans hloop, hcomposite.trans ?_⟩
    simp only [hsquares]
    constructor
    · rintro ⟨j, hj, hsq⟩
      exact Or.inr ⟨j + 1, by omega, hsq⟩
    · rintro (h | ⟨j, hj, hsq⟩)
      · exact absurd h hone
      · cases j with
        | zero => exact absurd (by simpa using hsq) hlast
        | succ j => exact ⟨j, by omega, hsq⟩

theorem emod_eq_of_cast {p : ℕ} {x v : ℤ} (h : (x : ZMod p) = v) (hv₀ : 0 ≤ v) (hv : v < p) :
    x % p = v := by
  rw [ZMod.intCast_eq_intCast_iff', Int.emod_eq_of_lt hv₀ hv] at h
  exact h

/-- **A prime passes.** Fermat's theorem, and the square roots of one. -/
theorem passesRound_of_prime {p : ℕ} (hp : p.Prime) {r d : ℕ} (hrd : 2 ^ r * d = p - 1) {a : ℤ}
    (ha : ¬ (p : ℤ) ∣ a) : PassesRound p r d a := by
  have : Fact p.Prime := ⟨hp⟩
  have hlt := hp.one_lt
  have hfermat : ((a : ZMod p) ^ d) ^ 2 ^ r = 1 := by
    rw [← pow_mul, mul_comm d, hrd]
    apply ZMod.pow_card_sub_one_eq_one
    rwa [Ne, ZMod.intCast_zmod_eq_zero_iff_dvd]
  rcases exists_pow_eq_neg_one hfermat with hone | ⟨j, hj, hneg⟩
  · left
    apply emod_eq_of_cast
    · push_cast
      exact hone
    · omega
    · omega
  · refine Or.inr ⟨j, hj, emod_eq_of_cast ?_ (by omega) (by omega)⟩
    push_cast
    rw [hneg, ZMod.natCast_self, zero_sub]

/-! ## The test of a prime -/

theorem counting_primalityRound {p : ℕ} (hp : p.Prime) (hthree : 3 < p) (k : JSNumber)
    {bases : ℕ → ℤ} (hbases : ∀ i, 2 ≤ bases i ∧ bases i < p - 2) {r d : ℕ}
    (hrd : 2 ^ r * d = p - 1) (hd : d % 2 = 1) :
    Counting k (primalityRound p k r d bases) (· + 1) (fun _ => true) := by
  intro i c
  obtain ⟨hlow, hhigh⟩ := hbases c
  have hnot : ¬ (p : ℤ) ∣ bases c := by
    intro hdvd
    have hle := Int.le_of_dvd (by omega) hdvd
    omega
  have hr : 0 < r := by
    have hodd := hp.eq_two_or_odd
    rcases Nat.eq_zero_or_pos r with rfl | hpos
    · omega
    · exact hpos
  obtain ⟨composite, hround, hcomposite⟩ := compositeRound_eq (n := p) (by omega) hr (bases c)
  have hpasses := hcomposite.mpr (passesRound_of_prime hp hrd hnot)
  have hrange : rangeDraw 2 (p - 2) (bases c) = .ok (bases c) := if_neg (by omega)
  have hdraw : (rangeDraw 2 (p - 2) (bases c) >>= compositeRound p r d) = .ok false := by
    rw [hrange, ← hpasses]
    exact hround
  rw [primalityRound, hdraw]
  rfl

/-- The test of a prime above three is a loop of as many rounds as there are below `k`. -/
theorem isProbablePrime_eq_loop {p : ℕ} (hp : p.Prime) (hthree : 3 < p) (k : JSNumber)
    (bases : ℕ → ℤ) (hbases : ∀ i, 2 ≤ bases i ∧ bases i < p - 2) :
    ∃ body, Counting k body (· + 1) (fun _ => true) ∧
      isProbablePrime p k bases = fun fuel => Outcome.loop body fuel (.finite 0, 0) := by
  obtain ⟨hrd, hd⟩ := oddPart_spec 0 (p - 1) (by omega)
  rw [pow_zero, one_mul] at hrd
  refine ⟨primalityRound p k _ _ bases, counting_primalityRound hp hthree k hbases hrd hd, ?_⟩
  funext fuel
  have hodd := hp.eq_two_or_odd
  have hpred : ((p : ℤ) - 1).toNat = p - 1 := by omega
  have hrem : ¬ (p : ℤ).tmod 2 = 0 := by
    rw [Int.tmod_eq_emod_of_nonneg (by omega)]
    omega
  rw [isProbablePrime, if_neg (by omega), if_neg (by omega), if_neg hrem, hpred]

/-- **Primes are not rejected.** Whatever bases are drawn, the test of a prime answers nothing
but `true`, no range of bases is empty, and the test ends unless `k` is above `2 ^ 53`, which
the counter does not reach. -/
theorem isProbablePrime_of_prime {n : ℕ} (hn : n.Prime) (k : JSNumber) (bases : ℕ → ℤ)
    (hbases : ∀ i, (2 : ℤ) < n - 2 → 2 ≤ bases i ∧ bases i < n - 2) :
    (∀ fuel, isProbablePrime n k bases fuel = .running ∨
        isProbablePrime n k bases fuel = .returns true) ∧
      (Returns (isProbablePrime n k bases) true ↔
        n ≤ 3 ∨ (JSNumber.finite ((2 ^ 53 : ℕ) : ℚ)).lt k = false) ∧
      (3 < n → ∀ i, rangeDraw 2 (n - 2) (bases i) = .ok (bases i)) := by
  rcases Nat.lt_or_ge 3 n with hthree | hsmall
  · have hne : n ≠ 4 := by
      rintro rfl
      exact absurd hn (by decide)
    have hrange : (2 : ℤ) < n - 2 := by omega
    obtain ⟨body, hcounting, heq⟩ :=
      isProbablePrime_eq_loop hn hthree k bases fun i => hbases i hrange
    refine ⟨?_, ?_, fun _ i => if_neg (by omega)⟩
    · intro fuel
      rw [heq]
      exact (hcounting.running_or_returns fuel 0).imp_right fun ⟨_, _, h⟩ => h
    · rw [heq, or_iff_right (by omega), hcounting.returns_iff, ← exists_rounds_iff]
      simp
  · have htrue : ∀ fuel, isProbablePrime n k bases fuel = .returns true := by
      intro fuel
      have htwo := hn.two_le
      rw [isProbablePrime, if_neg (by omega), if_pos (by omega)]
    refine ⟨fun fuel => Or.inr (htrue fuel), ?_, fun h => absurd h (by omega)⟩
    exact iff_of_true ⟨0, htrue 0⟩ (Or.inl hsmall)

/-- Five passes the rounds with its one base. -/
theorem five_is_probable_prime : Returns (isProbablePrime 5 (.finite 40) fun _ => 2) true :=
  ((isProbablePrime_of_prime (n := 5) (by decide) (.finite 40) (fun _ => 2)
    (by intro _ _; decide)).2.1).mpr (Or.inr (by decide))

/-- With more rounds than the counter can count, the test of five does not end. -/
theorem five_never_ends :
    ¬ Finishes (isProbablePrime 5 (.finite (2 ^ 53 + 2)) fun _ => 2) := by
  obtain ⟨body, hcounting, heq⟩ := isProbablePrime_eq_loop (p := 5) (by decide) (by decide)
    (.finite (2 ^ 53 + 2)) (fun _ => 2) (by intro _; decide)
  rintro ⟨fuel, hfuel⟩
  apply hfuel
  have hrunning := hcounting.loop_running (by rw [JSNumber.lt_finite]; norm_num) fuel 0
    (by decide) 0
  rw [Nat.cast_zero] at hrunning
  exact (congrFun heq fuel).trans hrunning

end BioFire
