import BioFire.JSValue
import BioFire.Outcome
import Mathlib.Logic.Function.Iterate

/-!
# Loops that count

A loop `for (let i = 0; i < bound; i++)` over numbers in double precision. Counting by ones
stops at `2 ^ 53`, so the loop ends exactly when its bound is not above that number.

* `Counting.loop_returns`: the result after all rounds;
* `Counting.loop_running`: a bound that the counter does not reach;
* `Counting.returns_iff`: what the loop returns, with any fuel.
-/

namespace BioFire

open Outcome

variable {ε σ β : Type} {bound : JSNumber} {body : JSNumber × σ → Outcome ε ((JSNumber × σ) ⊕ β)}
  {next : σ → σ} {result : σ → β}

/-- Each round below the bound takes `s` to `next s`, and the loop then answers `result s`. -/
def Counting (bound : JSNumber) (body : JSNumber × σ → Outcome ε ((JSNumber × σ) ⊕ β))
    (next : σ → σ) (result : σ → β) : Prop :=
  ∀ i s, body (i, s) =
    if i.lt bound then .returns (.inl (i.add (.finite 1), next s)) else .returns (.inr (result s))

/-- The number of rounds below the bound is `t`, and the counter reaches it. -/
structure Rounds (bound : JSNumber) (t : ℕ) : Prop where
  le_two_pow : t ≤ 2 ^ 53
  lt_bound : ∀ i < t, (JSNumber.finite i).lt bound = true
  last : (JSNumber.finite t).lt bound = false

theorem rounds_natCast {t : ℕ} (ht : t ≤ 2 ^ 53) : Rounds (.finite t) t where
  le_two_pow := ht
  lt_bound i hi := by
    rw [JSNumber.lt_finite, decide_eq_true_eq]
    exact_mod_cast hi
  last := by simp

theorem Rounds.natCast_eq {t n : ℕ} (h : Rounds (.finite t) n) : t = n := by
  have hlast := h.last
  rw [JSNumber.lt_finite, decide_eq_false_iff_not, Nat.cast_lt] at hlast
  by_contra hne
  have hlt := h.lt_bound t (by omega)
  simp at hlt

/-- The counter reaches the bounds that are not above `2 ^ 53`. -/
theorem exists_rounds_iff :
    (∃ t, Rounds bound t) ↔ (JSNumber.finite ((2 ^ 53 : ℕ) : ℚ)).lt bound = false := by
  constructor
  · rintro ⟨t, ht⟩
    rw [← Bool.not_eq_true]
    intro hlt
    exact Bool.noConfusion (ht.last.symm.trans (JSNumber.lt_of_natCast_le ht.le_two_pow hlt))
  · intro h
    have hex : ∃ t : ℕ, (JSNumber.finite t).lt bound = false := ⟨2 ^ 53, h⟩
    refine ⟨Nat.find hex, Nat.find_min' hex h, ?_, Nat.find_spec hex⟩
    intro i hi
    rw [← Bool.not_eq_false]
    exact Nat.find_min hex hi

theorem Counting.loop_returns_from (h : Counting bound body next result) {t : ℕ}
    (ht : Rounds bound t) (k n : ℕ) (hn : n + k = t) (s : σ) :
    loop body (k + 1) (.finite n, s) = .returns (result (next^[k] s)) := by
  induction k generalizing n s with
  | zero =>
    obtain rfl : n = t := by omega
    rw [loop, h, ht.last]
    rfl
  | succ k ih =>
    have hle := ht.le_two_pow
    rw [loop, h, ht.lt_bound n (by omega), JSNumber.add_one_natCast (by omega),
      min_eq_left (by omega)]
    exact ih (n + 1) (by omega) (next s)

/-- **All rounds.** -/
theorem Counting.loop_returns (h : Counting bound body next result) {t : ℕ} (ht : Rounds bound t)
    (s : σ) : loop body (t + 1) (.finite 0, s) = .returns (result (next^[t] s)) := by
  have hloop := h.loop_returns_from ht t 0 (by omega) s
  rwa [Nat.cast_zero] at hloop

/-- **Beyond `2 ^ 53` the loop does not end.** -/
theorem Counting.loop_running (h : Counting bound body next result)
    (hbound : (JSNumber.finite ((2 ^ 53 : ℕ) : ℚ)).lt bound = true) (fuel n : ℕ)
    (hn : n ≤ 2 ^ 53) (s : σ) : loop body fuel (.finite n, s) = .running := by
  induction fuel generalizing n s with
  | zero => rfl
  | succ fuel ih =>
    have hlt := JSNumber.lt_of_natCast_le hn hbound
    rw [loop, h, hlt, JSNumber.add_one_natCast hn]
    exact ih _ (min_le_right _ _) (next s)

theorem Counting.running_or_returns (h : Counting bound body next result) (fuel : ℕ) (s : σ) :
    loop body fuel (.finite 0, s) = .running ∨
      ∃ t, Rounds bound t ∧ loop body fuel (.finite 0, s) = .returns (result (next^[t] s)) := by
  cases hbound : (JSNumber.finite ((2 ^ 53 : ℕ) : ℚ)).lt bound with
  | true =>
    left
    have hrunning := h.loop_running hbound fuel 0 (by omega) s
    rwa [Nat.cast_zero] at hrunning
  | false =>
    obtain ⟨t, ht⟩ := exists_rounds_iff.mpr hbound
    have hreturns := h.loop_returns ht s
    have hbody := fun s => Below.refl (body s)
    rcases Nat.le_total fuel (t + 1) with hless | hmore
    · by_cases hrunning : loop body fuel (.finite 0, s) = .running
      · exact Or.inl hrunning
      · exact Or.inr ⟨t, ht, (Below.loop hbody hless _ hrunning).symm.trans hreturns⟩
    · have hended : loop body (t + 1) (.finite 0, s) ≠ .running := by simp [hreturns]
      exact Or.inr ⟨t, ht, (Below.loop hbody hmore _ hended).trans hreturns⟩

/-- **What the loop returns.** -/
theorem Counting.returns_iff (h : Counting bound body next result) {s : σ} {b : β} :
    Returns (fun fuel => loop body fuel (.finite 0, s)) b ↔
      ∃ t, Rounds bound t ∧ b = result (next^[t] s) := by
  constructor
  · rintro ⟨fuel, hfuel⟩
    rcases h.running_or_returns fuel s with hrunning | ⟨t, ht, hreturns⟩
    · cases hfuel.symm.trans hrunning
    · exact ⟨t, ht, Outcome.returns.inj (hfuel.symm.trans hreturns)⟩
  · rintro ⟨t, ht, rfl⟩
    exact ⟨t + 1, h.loop_returns ht s⟩

end BioFire
