import Mathlib.Data.Int.Log
import Mathlib.Data.Rat.Floor
import Mathlib.Algebra.Order.Floor.Ring
import Mathlib.Algebra.Order.Field.Power
import Mathlib.Tactic.Linarith
import Mathlib.Tactic.Ring
import Mathlib.Tactic.FieldSimp

/-!
# Rounding to a binary floating-point format

A format has `precision` significant bits and a smallest exponent; its numbers
are the `m * 2 ^ e` with `|m| < 2 ^ precision`. `round` goes to the nearest one,
ties to the even mantissa. There is no largest number.

* `round_of_representable`: the numbers of the format are fixed;
* `representable_round`: the result is a number of the format;
* `round_round`: rounding twice is rounding once;
* `floor_round`: which numbers keep their integer part.
-/

/-- A binary format: the significant bits and the smallest exponent. -/
structure FloatFormat where
  precision : ℕ
  minExponent : ℤ
  precision_pos : 0 < precision

namespace FloatFormat

/-- The nearest integer, ties to the even one. -/
def roundHalfEven (x : ℚ) : ℤ :=
  let below := ⌊x⌋
  if x - below < 1 / 2 then below
  else if 1 / 2 < x - below then below + 1
  else if below % 2 = 0 then below else below + 1

theorem roundHalfEven_intCast (k : ℤ) : roundHalfEven k = k := by
  simp [roundHalfEven]

/-- Rounding to an integer does not leave an interval with integer ends. -/
theorem abs_roundHalfEven_le {x : ℚ} {k : ℤ} (h : |x| ≤ k) : |roundHalfEven x| ≤ k := by
  obtain ⟨hlo, hhi⟩ := abs_le.mp h
  have hfloor := Int.floor_le x
  have hlt := Int.lt_floor_add_one x
  have hfloor_ge : -k ≤ ⌊x⌋ := Int.le_floor.mpr (by push_cast; exact hlo)
  have hfloor_le : ⌊x⌋ ≤ k := by exact_mod_cast hfloor.trans hhi
  have hsucc : 1 / 2 ≤ x - ⌊x⌋ → ⌊x⌋ + 1 ≤ k := by
    intro hhalf
    have hcast : (⌊x⌋ : ℚ) < k := by linarith
    exact_mod_cast hcast
  rw [abs_le]
  simp only [roundHalfEven]
  split
  next => exact ⟨hfloor_ge, hfloor_le⟩
  next hge =>
    have hup := hsucc (not_lt.mp hge)
    split
    next => omega
    next => split <;> omega

theorem roundHalfEven_nonneg {x : ℚ} (h : 0 ≤ x) : 0 ≤ roundHalfEven x := by
  have hfloor : 0 ≤ ⌊x⌋ := Int.floor_nonneg.mpr h
  simp only [roundHalfEven]
  split
  next => exact hfloor
  next =>
    split
    next => omega
    next => split <;> omega

theorem floor_le_roundHalfEven (x : ℚ) : ⌊x⌋ ≤ roundHalfEven x := by
  simp only [roundHalfEven]
  split
  next => exact le_rfl
  next =>
    split
    next => omega
    next => split <;> omega

theorem roundHalfEven_le_add_half (x : ℚ) : (roundHalfEven x : ℚ) ≤ x + 1 / 2 := by
  have hfloor := Int.floor_le x
  simp only [roundHalfEven]
  split
  next => linarith
  next hge =>
    have hge' := not_lt.mp hge
    split
    next => push_cast; linarith
    next =>
      split
      next => linarith
      next => push_cast; linarith

variable (fmt : FloatFormat)

/-- The exponent of the last significant bit of a nonzero number. -/
def lastExponent (x : ℚ) : ℤ := max (Int.log 2 |x| - fmt.precision + 1) fmt.minExponent

/-- The nearest number of the format. -/
def round (x : ℚ) : ℚ :=
  if x = 0 then 0
  else roundHalfEven (x / 2 ^ fmt.lastExponent x) * 2 ^ fmt.lastExponent x

@[simp] theorem round_zero : fmt.round 0 = 0 := if_pos rfl

/-- The numbers of the format. -/
def Representable (x : ℚ) : Prop :=
  ∃ m e : ℤ, |m| < 2 ^ fmt.precision ∧ fmt.minExponent ≤ e ∧ x = m * 2 ^ e

theorem representable_intCast {k : ℤ} (h : |k| < 2 ^ fmt.precision) (hmin : fmt.minExponent ≤ 0) :
    fmt.Representable k := ⟨k, 0, h, hmin, by simp⟩

theorem representable_zero : fmt.Representable 0 :=
  ⟨0, fmt.minExponent, by simp, le_rfl, by simp⟩

/-- The last bit of a representable number is not above its exponent. -/
theorem lastExponent_le {m e : ℤ} (hm : |m| < 2 ^ fmt.precision) (hm₀ : m ≠ 0)
    (he : fmt.minExponent ≤ e) : fmt.lastExponent (m * 2 ^ e) ≤ e := by
  have habs : |(m * 2 ^ e : ℚ)| = |(m : ℚ)| * 2 ^ e := by
    rw [abs_mul, abs_of_pos (by positivity : (0 : ℚ) < 2 ^ e)]
  have hpos : 0 < |(m * 2 ^ e : ℚ)| := abs_pos.mpr (by positivity)
  have hlt : |(m * 2 ^ e : ℚ)| < (2 : ℕ) ^ ((fmt.precision : ℤ) + e) := by
    have hm' : |(m : ℚ)| < 2 ^ fmt.precision := by exact_mod_cast hm
    rw [habs, Nat.cast_ofNat, zpow_add₀ two_ne_zero, zpow_natCast]
    exact mul_lt_mul_of_pos_right hm' (by positivity)
  have hlog := (Int.lt_zpow_iff_log_lt one_lt_two hpos).mp hlt
  rw [lastExponent]
  exact max_le (by omega) he

/-- **Exactness.** The numbers of the format are not changed. -/
theorem round_of_representable {x : ℚ} (h : fmt.Representable x) : fmt.round x = x := by
  obtain ⟨m, e, hm, he, rfl⟩ := h
  by_cases hm₀ : m = 0
  · simp [round, hm₀]
  have hx : (m * 2 ^ e : ℚ) ≠ 0 := by positivity
  obtain ⟨k, hk⟩ := Int.le.dest (fmt.lastExponent_le hm hm₀ he)
  have hquot : (m * 2 ^ e : ℚ) / 2 ^ fmt.lastExponent (m * 2 ^ e) = (m * 2 ^ k : ℤ) := by
    rw [div_eq_iff (by positivity)]
    conv_lhs => rw [← hk, zpow_add₀ two_ne_zero, zpow_natCast]
    push_cast
    ring
  rw [round, if_neg hx, hquot, roundHalfEven_intCast, ← hquot, div_mul_cancel₀ _ (by positivity)]

theorem abs_div_lastExponent_le (x : ℚ) :
    |x / 2 ^ fmt.lastExponent x| ≤ ((2 ^ fmt.precision : ℤ) : ℚ) := by
  have hlt : |x| < (2 : ℚ) ^ (Int.log 2 |x| + 1) := by
    exact_mod_cast Int.lt_zpow_succ_log_self one_lt_two |x|
  have hexp : Int.log 2 |x| + 1 ≤ fmt.precision + fmt.lastExponent x := by
    have hmax := le_max_left (Int.log 2 |x| - fmt.precision + 1) fmt.minExponent
    rw [lastExponent]
    omega
  rw [abs_div, abs_of_pos (by positivity : (0 : ℚ) < 2 ^ fmt.lastExponent x),
    div_le_iff₀ (by positivity)]
  push_cast
  calc |x| ≤ 2 ^ (Int.log 2 |x| + 1) := hlt.le
    _ ≤ 2 ^ (fmt.precision + fmt.lastExponent x) := zpow_le_zpow_right₀ one_le_two hexp
    _ = 2 ^ fmt.precision * 2 ^ fmt.lastExponent x := by
      rw [zpow_add₀ two_ne_zero, zpow_natCast]

theorem representable_round (x : ℚ) : fmt.Representable (fmt.round x) := by
  by_cases hx : x = 0
  · rw [round, if_pos hx]
    exact fmt.representable_zero
  rw [round, if_neg hx]
  set e := fmt.lastExponent x with he
  have hmin : fmt.minExponent ≤ e := le_max_right _ _
  have hle := abs_roundHalfEven_le (fmt.abs_div_lastExponent_le x)
  rcases hle.lt_or_eq with hlt | heq
  · exact ⟨_, e, hlt, hmin, rfl⟩
  -- the mantissa has become the next power of two: one bit less, the exponent one up
  obtain ⟨p, hp⟩ : ∃ p, fmt.precision = p + 1 := ⟨fmt.precision - 1, by have := fmt.precision_pos; omega⟩
  have hsmall : |(2 ^ p : ℤ)| < 2 ^ fmt.precision := by
    rw [hp, abs_of_pos (by positivity)]
    exact pow_lt_pow_right₀ one_lt_two (Nat.lt_succ_self p)
  rcases abs_eq (by positivity) |>.mp heq with hm | hm
  · refine ⟨2 ^ p, e + 1, hsmall, by omega, ?_⟩
    rw [hm, hp, zpow_add₀ two_ne_zero]
    push_cast
    ring
  · refine ⟨-2 ^ p, e + 1, by rwa [abs_neg], by omega, ?_⟩
    rw [hm, hp, zpow_add₀ two_ne_zero]
    push_cast
    ring

@[simp] theorem round_round (x : ℚ) : fmt.round (fmt.round x) = fmt.round x :=
  fmt.round_of_representable (fmt.representable_round x)

theorem round_nonneg {x : ℚ} (h : 0 ≤ x) : 0 ≤ fmt.round x := by
  rw [round]
  split
  next => exact le_rfl
  next =>
    have hmantissa : 0 ≤ roundHalfEven (x / 2 ^ fmt.lastExponent x) :=
      roundHalfEven_nonneg (div_nonneg h (by positivity))
    positivity

/-- A number does not round to another integer when it is not within half a unit of the
next one. -/
theorem floor_round {x : ℚ} (hexp : fmt.lastExponent x ≤ 0)
    (hx : x + 2 ^ fmt.lastExponent x / 2 < ⌊x⌋ + 1) : ⌊fmt.round x⌋ = ⌊x⌋ := by
  by_cases hx₀ : x = 0
  · rw [hx₀, round_zero]
  rw [round, if_neg hx₀]
  set e := fmt.lastExponent x
  obtain ⟨k, hk⟩ := Int.le.dest hexp
  have hunit : (2 : ℚ) ^ e * 2 ^ k = 1 := by
    rw [← zpow_natCast, ← zpow_add₀ two_ne_zero, hk, zpow_zero]
  have hpos : (0 : ℚ) < 2 ^ e := by positivity
  rw [Int.floor_eq_iff]
  constructor
  · have hmultiple : ⌊x⌋ * 2 ^ k ≤ ⌊x / 2 ^ e⌋ := by
      rw [Int.le_floor, le_div_iff₀ hpos]
      push_cast
      calc (⌊x⌋ : ℚ) * 2 ^ k * 2 ^ e = ⌊x⌋ := by rw [mul_assoc, mul_comm (2 ^ k), hunit, mul_one]
        _ ≤ x := Int.floor_le x
    have hmantissa : ((⌊x⌋ * 2 ^ k : ℤ) : ℚ) ≤ roundHalfEven (x / 2 ^ e) := by
      exact_mod_cast hmultiple.trans (floor_le_roundHalfEven _)
    calc (⌊x⌋ : ℚ) = (⌊x⌋ * 2 ^ k : ℤ) * 2 ^ e := by
          push_cast
          rw [mul_assoc, mul_comm (2 ^ k), hunit, mul_one]
      _ ≤ roundHalfEven (x / 2 ^ e) * 2 ^ e := mul_le_mul_of_nonneg_right hmantissa hpos.le
  · calc (roundHalfEven (x / 2 ^ e) : ℚ) * 2 ^ e
        ≤ (x / 2 ^ e + 1 / 2) * 2 ^ e :=
          mul_le_mul_of_nonneg_right (roundHalfEven_le_add_half _) hpos.le
      _ = x + 2 ^ e / 2 := by rw [add_mul, div_mul_cancel₀ x hpos.ne']; ring
      _ < ⌊x⌋ + 1 := hx

theorem round_natCast {k : ℕ} (h : k < 2 ^ fmt.precision) (hmin : fmt.minExponent ≤ 0) :
    fmt.round k = k := by
  have habs : |(k : ℤ)| < 2 ^ fmt.precision := by
    rw [Nat.abs_cast]
    exact_mod_cast h
  exact_mod_cast fmt.round_of_representable (fmt.representable_intCast habs hmin)

end FloatFormat
