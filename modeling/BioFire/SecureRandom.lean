import Mathlib.Data.Int.Init

/-!
# Random values

What the sampling functions of `secure_random.ts` can return. A run of the
model is given the values drawn in it; a statement about every run quantifies
over them.
-/

namespace BioFire

/-- Successive results of `randomBigInt(max)`. -/
structure RandomBigInts (max : ℤ) where
  draw : ℕ → ℤ
  nonneg : ∀ i, 0 ≤ draw i
  lt_max : ∀ i, draw i < max

/-- A result of `randomScalar(curveOrder)`. -/
def Scalar (curveOrder : ℤ) : Type := {k : ℤ // 1 ≤ k ∧ k < curveOrder}

end BioFire
