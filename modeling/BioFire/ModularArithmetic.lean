import BioFire.JSValue
import Mathlib.Data.ZMod.Basic
import Mathlib.Data.Int.GCD
import Mathlib.Data.Int.ModEq
import Mathlib.Tactic.LinearCombination
import Mathlib.Tactic.NormNum
import Mathlib.Tactic.Positivity
import Mathlib.Tactic.Ring

/-!
# Modular arithmetic on bigints

The arithmetic of `paillier.ts` and `secp256k1.ts`. `%` and `/` truncate, as
`Int.tmod` and `Int.tdiv`, and raise a `RangeError` on a zero divisor; the
curve order, a constant of the source, is never zero.

* `modPow_ok`: square and multiply computes the power;
* `gcd_eq`, `extendedGcd_spec`, `modInverse_ok`: Euclid's algorithm;
* `modInverseOrder_spec`: the loop of `modInverseOrder` returns an inverse, and
  throws when there is none;
* `inverseLoop_abs_lt`, `modInverseOrder_eq_ok_iff`: its coefficients stay small, so that it
  returns what `modInverse` does.
-/

namespace BioFire

/-- `new Error(message)`. -/
def plainError (message : JSString) : JSError := ⟨.Error, message⟩

/-- A bigint printed in a template string. -/
def bigintString (n : ℤ) : JSString := js (toString n)

/-- `a / b`. -/
def bigintDiv (a b : ℤ) : Except JSError ℤ :=
  if b = 0 then .error ⟨.RangeError, js "Division by zero"⟩ else .ok (a.tdiv b)

/-- `a % b`. -/
def bigintRem (a b : ℤ) : Except JSError ℤ :=
  if b = 0 then .error ⟨.RangeError, js "Division by zero"⟩ else .ok (a.tmod b)

/-! ## `paillier.ts` -/

/-- The loop of `modPow`; the exponent is not negative there. -/
def modPowLoop (mod result b : ℤ) (e : ℕ) : ℤ :=
  if _h : e = 0 then result
  else modPowLoop mod (if e % 2 = 1 then (result * b).tmod mod else result)
    ((b * b).tmod mod) (e / 2)
termination_by e
decreasing_by omega

def modPow (base exp mod : ℤ) : Except JSError ℤ :=
  if mod = 1 then .ok 0
  else if exp < 0 then .error (plainError (js "Negative exponents not supported in modPow"))
  else do
    let b ← bigintRem ((← bigintRem base mod) + mod) mod
    return modPowLoop mod 1 b exp.toNat

/-- `[g, x, y]` with `a * x + b * y = g`. -/
def extendedGcd (a b : ℤ) : ℤ × ℤ × ℤ :=
  if _h : b = 0 then (a, 1, 0)
  else
    let r := extendedGcd b (a.tmod b)
    (r.1, r.2.2, r.2.1 - a.tdiv b * r.2.2)
termination_by b.natAbs
decreasing_by
  rw [Int.natAbs_tmod]
  exact Nat.mod_lt _ (Int.natAbs_pos.mpr ‹_›)

def modInverse (a m : ℤ) : Except JSError ℤ := do
  let reduced ← bigintRem ((← bigintRem a m) + m) m
  let (g, x, _) := extendedGcd reduced m
  if g ≠ 1 then
    .error (plainError (js "Modular inverse does not exist: gcd(" ++ bigintString a ++ js ", " ++
      bigintString m ++ js ") = " ++ bigintString g))
  else bigintRem ((← bigintRem x m) + m) m

/-- The loop of `gcd`, on absolute values. -/
def gcdLoop (a b : ℕ) : ℕ := if _h : b = 0 then a else gcdLoop b (a % b)
termination_by b
decreasing_by exact Nat.mod_lt _ (by omega)

def gcd (a b : ℤ) : ℤ := gcdLoop a.natAbs b.natAbs

def lcm (a b : ℤ) : Except JSError ℤ := bigintDiv (a * b) (gcd a b)

theorem bigintRem_of_nonneg {a b : ℤ} (ha : 0 ≤ a) (hb : b ≠ 0) : bigintRem a b = .ok (a % b) := by
  rw [bigintRem, if_neg hb, Int.tmod_eq_emod_of_nonneg ha]

theorem bigintDiv_of_nonneg {a b : ℤ} (ha : 0 ≤ a) (hb : b ≠ 0) : bigintDiv a b = .ok (a / b) := by
  rw [bigintDiv, if_neg hb, Int.tdiv_eq_ediv_of_nonneg ha]

theorem tmod_modEq (a m : ℤ) : a.tmod m ≡ a [ZMOD m] := by
  rw [Int.modEq_iff_dvd]
  refine ⟨a.tdiv m, ?_⟩
  have := Int.tmod_add_tdiv_mul a m
  linear_combination -this

theorem neg_lt_tmod {m : ℤ} (hm : 0 < m) (a : ℤ) : -m < a.tmod m := by
  have habs := Int.natAbs_tmod a m
  have hlt := Nat.mod_lt a.natAbs (Int.natAbs_pos.mpr hm.ne')
  omega

/-- `a % m + m` is not negative, so the second reduction gives the residue. -/
theorem tmod_add_tmod {m : ℤ} (hm : 0 < m) (a : ℤ) : (a.tmod m + m).tmod m = a % m := by
  have hlt := neg_lt_tmod hm a
  rw [Int.tmod_eq_emod_of_nonneg (by omega), Int.add_emod_right]
  exact tmod_modEq a m

theorem modPowLoop_spec {mod : ℤ} (result b : ℤ) (e : ℕ) (hr₀ : 0 ≤ result)
    (hr : result < mod) (hb : 0 ≤ b) : modPowLoop mod result b e = result * b ^ e % mod := by
  induction result, b, e using modPowLoop.induct mod with
  | case1 result b => rw [modPowLoop, dif_pos rfl, pow_zero, mul_one, Int.emod_eq_of_lt hr₀ hr]
  | case2 result b e he ih =>
    have hmod : 0 < mod := by omega
    have hsq : (b * b).tmod mod = b * b % mod :=
      Int.tmod_eq_emod_of_nonneg (mul_nonneg hb hb)
    have hmul : (result * b).tmod mod = result * b % mod :=
      Int.tmod_eq_emod_of_nonneg (mul_nonneg hr₀ hb)
    simp only [hsq, hmul] at ih
    have hpow : b ^ e = b ^ (e % 2) * (b * b) ^ (e / 2) := by
      rw [← sq, ← pow_mul, ← pow_add, Nat.mod_add_div]
    rw [modPowLoop, dif_neg he, hsq, hmul]
    split at ih
    next hodd =>
      rw [if_pos hodd, ih (Int.emod_nonneg _ hmod.ne') (Int.emod_lt_of_pos _ hmod)
        (Int.emod_nonneg _ hmod.ne'), hpow, hodd, pow_one, ← mul_assoc]
      exact (Int.mod_modEq _ _).mul ((Int.mod_modEq _ _).pow _)
    next heven =>
      rw [if_neg heven, ih hr₀ hr (Int.emod_nonneg _ hmod.ne'), hpow,
        show e % 2 = 0 by omega, pow_zero, one_mul]
      exact (Int.ModEq.refl _).mul ((Int.mod_modEq _ _).pow _)

/-- **`modPow` computes the power.** -/
theorem modPow_ok {base exp mod : ℤ} (hexp : 0 ≤ exp) (hmod : 1 < mod) :
    modPow base exp mod = .ok (base ^ exp.toNat % mod) := by
  have hloop := modPowLoop_spec 1 (base % mod) exp.toNat (by omega) hmod
    (Int.emod_nonneg base (by omega))
  rw [modPow, if_neg (by omega), if_neg (by omega)]
  simp only [bigintRem, if_neg (show mod ≠ 0 by omega), bind, Except.bind,
    tmod_add_tmod (show 0 < mod by omega), hloop, one_mul]
  exact congrArg Except.ok ((Int.mod_modEq base mod).pow exp.toNat)

theorem gcdLoop_eq (a b : ℕ) : gcdLoop a b = Nat.gcd a b := by
  induction a, b using gcdLoop.induct with
  | case1 a => rw [gcdLoop, dif_pos rfl, Nat.gcd_zero_right]
  | case2 a b hb ih => rw [gcdLoop, dif_neg hb, ih, Nat.gcd_comm, ← Nat.gcd_rec, Nat.gcd_comm]

theorem gcd_eq (a b : ℤ) : gcd a b = Int.gcd a b := by
  rw [gcd, gcdLoop_eq]
  rfl

theorem lcm_ok {a b : ℕ} (ha : 0 < a) : lcm a b = .ok (Nat.lcm a b : ℕ) := by
  have hgcd : gcd a b = (Nat.gcd a b : ℕ) := by rw [gcd_eq, Int.gcd_natCast_natCast]
  have hpos := Nat.gcd_pos_of_pos_left b ha
  have hlcm : Nat.lcm a b = a * b / Nat.gcd a b := rfl
  rw [lcm, hgcd, bigintDiv_of_nonneg (by positivity) (by omega), hlcm]
  norm_cast

/-- The result of `extendedGcd` is the greatest common divisor, with its
coefficients. -/
theorem extendedGcd_spec (a b : ℤ) (ha : 0 ≤ a) (hb : 0 ≤ b) :
    (extendedGcd a b).1 = Int.gcd a b ∧
      a * (extendedGcd a b).2.1 + b * (extendedGcd a b).2.2 = (extendedGcd a b).1 := by
  induction a, b using extendedGcd.induct with
  | case1 a =>
    rw [extendedGcd, dif_pos rfl]
    refine ⟨?_, by ring⟩
    rw [Int.gcd_zero_right]
    omega
  | case2 a b hne ih =>
    obtain ⟨hg, hxy⟩ := ih hb (by rw [Int.tmod_eq_emod_of_nonneg ha]; exact Int.emod_nonneg a hne)
    rw [extendedGcd, dif_neg hne]
    refine ⟨?_, ?_⟩
    · rw [hg, Int.tmod_eq_emod_of_nonneg ha, Int.gcd_comm, Int.gcd_emod]
    · have hdiv := Int.tmod_add_tdiv_mul a b
      linear_combination hxy - (extendedGcd b (a.tmod b)).2.2 * hdiv

theorem eq_of_mul_modEq_one {a m x y : ℤ} (hx₀ : 0 ≤ x) (hx : x < m) (hy₀ : 0 ≤ y) (hy : y < m)
    (hax : a * x ≡ 1 [ZMOD m]) (hay : a * y ≡ 1 [ZMOD m]) : x = y := by
  have hxy : x ≡ y [ZMOD m] := by
    have hleft : a * x * y ≡ y [ZMOD m] := by simpa using hax.mul_right y
    have hright : a * y * x ≡ x [ZMOD m] := by simpa using hay.mul_right x
    rw [mul_right_comm] at hright
    exact hright.symm.trans hleft
  rwa [Int.ModEq, Int.emod_eq_of_lt hx₀ hx, Int.emod_eq_of_lt hy₀ hy] at hxy

/-- `modInverse` returns the inverse, exactly when there is one. -/
theorem modInverse_ok {a m x : ℤ} (hm : 0 < m) :
    modInverse a m = .ok x ↔ Int.gcd a m = 1 ∧ 0 ≤ x ∧ x < m ∧ a * x ≡ 1 [ZMOD m] := by
  have hm₀ : m ≠ 0 := by omega
  obtain ⟨hg, hxy⟩ := extendedGcd_spec (a % m) m (Int.emod_nonneg a hm₀) (by omega)
  rcases e : extendedGcd (a % m) m with ⟨g, u, v⟩
  simp only [e, Int.gcd_emod] at hg hxy
  have hrun : modInverse a m = if g ≠ 1 then
      .error (plainError (js "Modular inverse does not exist: gcd(" ++ bigintString a ++ js ", " ++
        bigintString m ++ js ") = " ++ bigintString g)) else .ok (u % m) := by
    simp only [modInverse, bigintRem, if_neg hm₀, bind, Except.bind,
      tmod_add_tmod (show 0 < m by omega), e]
  rw [hrun]
  by_cases hone : g = 1
  · have hu : a * u ≡ 1 [ZMOD m] := by
      refine ((Int.mod_modEq a m).symm.mul_right u).trans (Int.modEq_iff_dvd.mpr ⟨v, ?_⟩)
      rw [← hone, ← hxy]
      ring
    rw [if_neg (by simpa using hone)]
    constructor
    · rintro ⟨⟩
      exact ⟨by omega, Int.emod_nonneg u hm₀, Int.emod_lt_of_pos u (by omega),
        ((Int.mod_modEq u m).mul_left a).trans hu⟩
    · rintro ⟨-, hx₀, hx, hinv⟩
      have hmod : a * (u % m) ≡ 1 [ZMOD m] := ((Int.mod_modEq u m).mul_left a).trans hu
      exact congrArg Except.ok (eq_of_mul_modEq_one (Int.emod_nonneg u hm₀)
        (Int.emod_lt_of_pos u (by omega)) hx₀ hx hmod hinv)
  · rw [if_pos hone]
    constructor
    · rintro ⟨⟩
    · rintro ⟨h, -⟩
      exact absurd (by omega) hone

theorem exists_modInverse {a m : ℤ} (hm : 0 < m) (h : Int.gcd a m = 1) :
    ∃ x, modInverse a m = .ok x := by
  have hcoefficient : a * Int.gcdA a m ≡ 1 [ZMOD m] := by
    have hgcd := Int.gcd_eq_gcd_ab a m
    rw [h, Nat.cast_one] at hgcd
    refine Int.modEq_iff_dvd.mpr ⟨Int.gcdB a m, ?_⟩
    linear_combination hgcd
  refine ⟨Int.gcdA a m % m, (modInverse_ok hm).mpr ⟨h, Int.emod_nonneg _ hm.ne',
    Int.emod_lt_of_pos _ hm, ?_⟩⟩
  exact ((Int.mod_modEq (Int.gcdA a m) m).mul_left a).trans hcoefficient

/-! ## `secp256k1.ts`

`q` is the curve order `CURVE_ORDER`. -/

section CurveOrder

variable (q : ℤ)

def modN (x : ℤ) : ℤ :=
  let r := x.tmod q
  if r < 0 then r + q else r

/-- The loop of `modInverseOrder`: the last `t` and `r`. -/
def inverseLoop (t newt r newr : ℤ) : ℤ × ℤ :=
  if _h : newr = 0 then (t, r)
  else
    let quotient := r.tdiv newr
    inverseLoop newt (t - quotient * newt) newr (r - quotient * newr)
termination_by newr.natAbs
decreasing_by
  have hrem : r - r.tdiv newr * newr = r.tmod newr := by
    have := Int.tmod_add_tdiv_mul r newr
    omega
  rw [hrem, Int.natAbs_tmod]
  exact Nat.mod_lt _ (Int.natAbs_pos.mpr ‹_›)

def modInverseOrder (k : ℤ) : Except JSError ℤ :=
  let k := (k.tmod q + q).tmod q
  let (t, r) := inverseLoop 0 1 q k
  if r > 1 then .error (plainError (js "Not invertible"))
  else .ok (if t < 0 then t + q else t)

end CurveOrder

theorem modN_eq {q : ℤ} (hq : 0 < q) (x : ℤ) : modN q x = x % q := by
  rw [modN]
  have hlt := neg_lt_tmod hq x
  have hup := Int.tmod_lt_of_pos x hq
  split
  next hneg =>
    have hmod := Int.emod_eq_of_lt (show 0 ≤ x.tmod q + q by omega)
      (show x.tmod q + q < q by omega)
    rw [← hmod, Int.add_emod_right]
    exact tmod_modEq x q
  next hpos =>
    rw [← Int.emod_eq_of_lt (show 0 ≤ x.tmod q by omega) hup]
    exact tmod_modEq x q

theorem sub_tdiv_mul {r : ℤ} (hr₀ : 0 ≤ r) (newr : ℤ) : r - r.tdiv newr * newr = r % newr := by
  have hdiv := Int.tmod_add_tdiv_mul r newr
  rw [Int.tmod_eq_emod_of_nonneg hr₀] at hdiv
  omega

/-- Euclid's algorithm keeps `r ≡ t * k` modulo `q` and the common divisors. -/
theorem inverseLoop_spec {q k : ℤ} (t newt r newr : ℤ) (hr₀ : 0 ≤ r) (hnewr₀ : 0 ≤ newr)
    (ht : t * k ≡ r [ZMOD q]) (hnewt : newt * k ≡ newr [ZMOD q]) :
    (inverseLoop t newt r newr).2 = Int.gcd r newr ∧
      (inverseLoop t newt r newr).1 * k ≡ (inverseLoop t newt r newr).2 [ZMOD q] := by
  induction t, newt, r, newr using inverseLoop.induct with
  | case1 t newt r =>
    rw [inverseLoop, dif_pos rfl]
    refine ⟨?_, ht⟩
    rw [Int.gcd_zero_right]
    omega
  | case2 t newt r newr hne quotient ih =>
    have hrem : r - quotient * newr = r % newr := sub_tdiv_mul hr₀ newr
    obtain ⟨hg, htk⟩ := ih hnewr₀ (by rw [hrem]; exact Int.emod_nonneg r hne) hnewt (by
      rw [sub_mul, mul_assoc]
      exact ht.sub (hnewt.mul_left quotient))
    rw [inverseLoop, dif_neg hne]
    refine ⟨?_, htk⟩
    rw [hg, hrem, Int.gcd_comm, Int.gcd_emod]

/-- **`modInverseOrder`** throws without an inverse and returns one otherwise. -/
theorem modInverseOrder_spec {q : ℤ} (hq : 0 < q) (k : ℤ) :
    if Int.gcd k q = 1 then ∃ t, modInverseOrder q k = .ok t ∧ t * k ≡ 1 [ZMOD q]
    else modInverseOrder q k = .error (plainError (js "Not invertible")) := by
  obtain ⟨hg, htk⟩ := inverseLoop_spec (q := q) (k := k % q) 0 1 q (k % q) (by omega)
    (Int.emod_nonneg k (by omega)) (by simp [Int.modEq_iff_dvd]) (by rw [one_mul])
  rcases e : inverseLoop 0 1 q (k % q) with ⟨t, r⟩
  simp only [e, Int.gcd_comm q, Int.gcd_emod] at hg htk
  have hrun : modInverseOrder q k = if r > 1 then .error (plainError (js "Not invertible"))
      else .ok (if t < 0 then t + q else t) := by
    simp only [modInverseOrder, tmod_add_tmod (show 0 < q by omega), e]
  have hpos : 0 < Int.gcd k q := Int.gcd_pos_of_ne_zero_right k (by omega)
  rw [hrun]
  split
  next hone =>
    have hr : r = 1 := by omega
    have ht : t * k ≡ 1 [ZMOD q] := by
      rw [← hr]
      exact ((Int.mod_modEq k q).symm.mul_left t).trans htk
    refine ⟨if t < 0 then t + q else t, by rw [if_neg (by omega)], ?_⟩
    split
    · have hq : q * k ≡ 0 [ZMOD q] := Int.modEq_zero_iff_dvd.mpr (dvd_mul_right q k)
      rw [add_mul]
      simpa using ht.add hq
    · exact ht
  next hne => rw [if_pos (by omega)]

/-- The coefficient of each remainder stays small while Euclid's algorithm runs:
`|newt| * r + |t| * newr` does not grow. -/
theorem inverseLoop_abs_lt {q : ℤ} (t newt r newr : ℤ) (hnewr₀ : 0 ≤ newr) (hlt : newr < r)
    (ht : |t| < q) (hbound : |newt| * r + |t| * newr ≤ q) :
    |(inverseLoop t newt r newr).1| < q := by
  induction t, newt, r, newr using inverseLoop.induct with
  | case1 t newt r =>
    rw [inverseLoop, dif_pos rfl]
    exact ht
  | case2 t newt r newr hne quotient ih =>
    have hr₀ : 0 ≤ r := by omega
    have hrem : r - quotient * newr = r % newr := sub_tdiv_mul hr₀ newr
    have hquotient : 0 ≤ quotient := Int.tdiv_nonneg hr₀ hnewr₀
    rw [inverseLoop, dif_neg hne]
    apply ih
    · rw [hrem]
      exact Int.emod_nonneg r hne
    · rw [hrem]
      exact Int.emod_lt_of_pos r (by omega)
    · have hnewt : |newt| * 2 ≤ |newt| * r := mul_le_mul_of_nonneg_left (by omega) (abs_nonneg newt)
      have hother : 0 ≤ |t| * newr := mul_nonneg (abs_nonneg t) hnewr₀
      have habs := abs_nonneg t
      omega
    · have hstep : |t - quotient * newt| ≤ |t| + quotient * |newt| := by
        calc |t - quotient * newt| ≤ |t| + |quotient * newt| := abs_sub t (quotient * newt)
          _ = |t| + quotient * |newt| := by rw [abs_mul, abs_of_nonneg hquotient]
      calc |t - quotient * newt| * newr + |newt| * (r - quotient * newr)
          ≤ (|t| + quotient * |newt|) * newr + |newt| * (r - quotient * newr) := by gcongr
        _ = |newt| * r + |t| * newr := by ring
        _ ≤ q := hbound

theorem modInverseOrder_range {q k t : ℤ} (hq : 0 < q) (h : modInverseOrder q k = .ok t) :
    0 ≤ t ∧ t < q := by
  have hlast := inverseLoop_abs_lt 0 1 q (k % q) (Int.emod_nonneg k hq.ne')
    (Int.emod_lt_of_pos k hq) (by simpa using hq) (by simp)
  rw [abs_lt] at hlast
  simp only [modInverseOrder, tmod_add_tmod hq] at h
  split at h
  · cases h
  · cases h
    split <;> omega

theorem modInverseOrder_eq_ok_iff {q k t : ℤ} (hq : 0 < q) :
    modInverseOrder q k = .ok t ↔ modInverse k q = .ok t := by
  have hspec := modInverseOrder_spec hq k
  rw [modInverse_ok hq]
  split at hspec
  next hone =>
    obtain ⟨x, hx, hinv⟩ := hspec
    obtain ⟨hx₀, hxq⟩ := modInverseOrder_range hq hx
    rw [mul_comm] at hinv
    rw [hx, Except.ok.injEq]
    constructor
    · rintro rfl
      exact ⟨hone, hx₀, hxq, hinv⟩
    · rintro ⟨-, ht₀, htq, ht⟩
      exact eq_of_mul_modEq_one hx₀ hxq ht₀ htq hinv ht
  next hne =>
    rw [hspec]
    constructor
    · rintro ⟨⟩
    · rintro ⟨hone, -⟩
      exact absurd hone hne

/-- **The inverses.** `modInverse` returns the one inverse in the range of the modulus and
throws when there is none, and `modInverseOrder` does the same for the curve order. -/
theorem modular_inverses (a m : ℤ) (hm : 1 ≤ m) (k q : ℤ) (hq : 1 ≤ q) :
    (if Int.gcd a m = 1 then
        ∃ x, modInverse a m = .ok x ∧ (0 ≤ x ∧ x < m ∧ a * x ≡ 1 [ZMOD m]) ∧
          ∀ y, 0 ≤ y → y < m → a * y ≡ 1 [ZMOD m] → y = x
      else ∃ e, modInverse a m = .error e) ∧
      (∀ x, modInverseOrder q k = .ok x ↔ modInverse k q = .ok x) ∧
      ((∃ e, modInverseOrder q k = .error e) ↔ ∃ e, modInverse k q = .error e) := by
  have hm₀ : 0 < m := by omega
  have horder : ∀ x, modInverseOrder q k = .ok x ↔ modInverse k q = .ok x :=
    fun x => modInverseOrder_eq_ok_iff (by omega)
  refine ⟨?_, horder, ?_⟩
  · split
    next hone =>
      obtain ⟨x, hx⟩ := exists_modInverse hm₀ hone
      obtain ⟨-, hx₀, hxm, hinv⟩ := (modInverse_ok hm₀).mp hx
      refine ⟨x, hx, ⟨hx₀, hxm, hinv⟩, ?_⟩
      intro y hy₀ hym hy
      exact eq_of_mul_modEq_one hy₀ hym hx₀ hxm hy hinv
    next hne =>
      apply exists_error_iff.mpr
      intro x hx
      exact hne ((modInverse_ok hm₀).mp hx).1
  · rw [exists_error_iff, exists_error_iff]
    exact forall_congr' fun x => not_congr (horder x)

/-- Two inverts three modulo five, and minus three modulo seven. -/
theorem modular_inverses_three :
    modInverse 3 5 = .ok 2 ∧ modInverseOrder 7 (-3) = .ok 2 := by
  obtain ⟨hinverse, horder, -⟩ := modular_inverses 3 5 (by decide) (-3) 7 (by decide)
  rw [if_pos (by decide)] at hinverse
  obtain ⟨x, hx, -, hunique⟩ := hinverse
  refine ⟨?_, ?_⟩
  · rw [hx, hunique 2 (by decide) (by decide) (by decide)]
  · exact (horder 2).mpr ((modInverse_ok (by decide)).mpr (by decide))

end BioFire
