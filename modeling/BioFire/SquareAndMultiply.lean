import BioFire.Vdf

/-!
# Powers modulo a number (`modPow` and the loop of `evaluateVDF`)

`modPow` squares and multiplies along the bits of its exponent; the loop of `evaluateVDF`
squares only. Its `x` is a truncated remainder, which may be negative, and is left as it is
when there is nothing to square.

* `squarings_eq`: the squarings as one power;
* `square_and_multiply`: what `modPow` returns, and when the loop returns the same.
-/

namespace BioFire.Governance

/-- After one squaring at least, the loop has the residue of the power. -/
theorem squarings_eq (x : ℤ) {t : ℕ} (ht : 0 < t) : squarings x t = x ^ 2 ^ t % vdfModulus := by
  induction t, ht using Nat.le_induction with
  | base =>
    rw [squarings_succ, squarings_zero, Nat.succ_eq_add_one, Nat.zero_add, pow_one, sq]
  | succ t ht ih =>
    rw [squarings_succ, ih, pow_succ, pow_mul, sq]
    exact (Int.mod_modEq _ _).mul (Int.mod_modEq _ _)

theorem modPow_two_pow (x : ℤ) (t : ℕ) :
    modPow x (2 ^ t) vdfModulus = .ok (x ^ 2 ^ t % vdfModulus) := by
  rw [modPow_ok (by positivity) one_lt_modulus]
  norm_cast

/-- Without a squaring, the loop has the residue when its start is not negative. -/
theorem power_eq_squarings_iff (c : ℤ) (t : ℕ) :
    (c.tmod vdfModulus) ^ 2 ^ t % vdfModulus = squarings (c.tmod vdfModulus) t ↔
      1 ≤ t ∨ 0 ≤ c.tmod vdfModulus := by
  have hpos : 0 < vdfModulus := lt_trans one_pos one_lt_modulus
  rcases Nat.eq_zero_or_pos t with rfl | ht
  · rw [squarings_zero, pow_zero, pow_one, or_iff_right (by decide)]
    constructor
    · intro h
      rw [← h]
      exact Int.emod_nonneg _ hpos.ne'
    · intro h
      exact Int.emod_eq_of_lt h (Int.tmod_lt_of_pos c hpos)
  · exact iff_of_true (squarings_eq _ ht).symm (Or.inl ht)

theorem squaringLoop_returns_iff {c y : ℤ} {T : ℕ} :
    Returns (squaringLoop (.finite T) c) y ↔ T ≤ 2 ^ 53 ∧ y = squarings (c.tmod vdfModulus) T := by
  constructor
  · rintro ⟨fuel, hfuel⟩
    exact of_loop_returns hfuel
  · rintro ⟨hT, rfl⟩
    exact ⟨T + 1, loop_returns _ hT⟩

/-- **Square and multiply.** `modPow` returns the residue of the power. The loop of
`evaluateVDF` returns the same for a power of two exactly when it ends and has something to
square or starts at a residue. -/
theorem square_and_multiply (base e m : ℤ) (he : 0 ≤ e) (hm : 1 ≤ m) (c : ℤ) (T : ℕ) :
    (∃ r, modPow base e m = .ok r ∧ 0 ≤ r ∧ r < m ∧ r ≡ base ^ e.toNat [ZMOD m]) ∧
      ((∃ y, Returns (squaringLoop (.finite T) c) y ∧
          modPow (c.tmod vdfModulus) (2 ^ T) vdfModulus = .ok y) ↔
        T ≤ 2 ^ 53 ∧ (1 ≤ T ∨ 0 ≤ c.tmod vdfModulus)) := by
  refine ⟨⟨base ^ e.toNat % m, ?_, Int.emod_nonneg _ (by omega), Int.emod_lt_of_pos _ (by omega),
    Int.mod_modEq _ _⟩, ?_⟩
  · rcases hm.eq_or_lt with rfl | hlt
    · rw [modPow, if_pos rfl, Int.emod_one]
    · exact modPow_ok he hlt
  · rw [← power_eq_squarings_iff]
    simp only [squaringLoop_returns_iff, modPow_two_pow, Except.ok.injEq]
    constructor
    · rintro ⟨y, ⟨hT, rfl⟩, hpower⟩
      exact ⟨hT, hpower⟩
    · rintro ⟨hT, hpower⟩
      exact ⟨_, ⟨hT, rfl⟩, hpower⟩

/-- A negative base, the modulus one, and three squarings of the challenge minus five. -/
theorem square_and_multiply_minus_five :
    (∃ r, modPow (-5) 3 1 = .ok r ∧ r ≡ (-5) ^ 3 [ZMOD 1]) ∧
      ∃ y, Returns (squaringLoop (.finite (3 : ℕ)) (-5)) y ∧
        modPow ((-5 : ℤ).tmod vdfModulus) (2 ^ 3) vdfModulus = .ok y := by
  obtain ⟨⟨r, hr, -, -, hmod⟩, hloop⟩ :=
    square_and_multiply (-5) 3 1 (by decide) (by decide) (-5) 3
  exact ⟨⟨r, hr, hmod⟩, hloop.mpr ⟨by decide, Or.inl (by decide)⟩⟩

/-- The challenge minus five is not squared and stays negative, and a count above `2 ^ 53` is
not reached. -/
theorem squaring_loop_differs :
    bigintOfString (js "-5") = .ok (-5) ∧ Returns (squaringLoop (.finite (0 : ℕ)) (-5)) (-5) ∧
      modPow ((-5 : ℤ).tmod vdfModulus) (2 ^ 0) vdfModulus = .ok (vdfModulus - 5) ∧
      vdfModulus - 5 ≠ -5 ∧ ∀ y, ¬ Returns (squaringLoop (.finite (2 ^ 53 + 2 : ℕ)) (-5)) y := by
  have hlarge : 5 < vdfModulus := lt_trans (by norm_num) hash_lt_modulus
  have hstart : (-5 : ℤ).tmod vdfModulus = -5 := by
    rw [Int.neg_tmod, Int.tmod_eq_of_lt (by decide) hlarge]
  refine ⟨by decide, ?_, ?_, by omega, ?_⟩
  · exact squaringLoop_returns_iff.mpr ⟨by decide, by rw [hstart, squarings_zero]⟩
  · rw [modPow_two_pow, hstart, pow_zero, pow_one, ← Int.add_emod_right,
      Int.emod_eq_of_lt (by omega) (by omega), neg_add_eq_sub]
  · intro y h
    have hT := (squaringLoop_returns_iff.mp h).1
    revert hT
    decide

end BioFire.Governance
