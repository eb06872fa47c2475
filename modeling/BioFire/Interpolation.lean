import Mathlib.LinearAlgebra.Lagrange
import Mathlib.Tactic.FieldSimp

/-!
# Sharing a field element by a polynomial

A secret is the value at zero of a polynomial; the shares are its values at
other points. `zeroWeight s v i` is the weight of point `i` when the points `s`
are interpolated at zero.

* `sum_zeroWeight_mul`: as many points as the polynomial has coefficients
  determine the secret;
* `exists_eval_eq`: one point less fits every secret;
* `eval_zero_of_forall_eq`: a value taken at that many points is the value at zero;
* `exists_nonzero_summands`: an element is the sum of nonzero ones.
-/

open Polynomial

namespace Sharing

variable {F ι : Type} [Field F]

/-! ## Polynomials by their coefficients -/

section Coefficients

variable {R : Type} [CommRing R]

/-- The polynomial with the coefficients `cs`, the constant first. -/
noncomputable def ofCoeffs (cs : List R) : R[X] := cs.foldr (fun c p => C c + X * p) 0

@[simp] theorem ofCoeffs_nil : ofCoeffs ([] : List R) = 0 := rfl

@[simp] theorem ofCoeffs_cons (c : R) (cs : List R) :
    ofCoeffs (c :: cs) = C c + X * ofCoeffs cs := rfl

theorem coeff_ofCoeffs (cs : List R) (n : ℕ) : (ofCoeffs cs).coeff n = cs.getD n 0 := by
  induction cs generalizing n with
  | nil => simp
  | cons c cs ih =>
    cases n with
    | zero => simp
    | succ n => rw [ofCoeffs_cons, coeff_add, coeff_C_succ, coeff_X_mul, zero_add, ih]; rfl

theorem eval_zero_ofCoeffs (cs : List R) : (ofCoeffs cs).eval 0 = cs.headD 0 := by
  cases cs <;> simp

theorem degree_ofCoeffs_lt (cs : List R) : (ofCoeffs cs).degree < cs.length := by
  rw [degree_lt_iff_coeff_zero]
  intro m hm
  rw [coeff_ofCoeffs, List.getD_eq_getElem?_getD, List.getElem?_eq_none hm]
  rfl

end Coefficients

/-! ## Interpolation at zero -/

section Weights

variable [DecidableEq ι] {s : Finset ι} {v : ι → F}

/-- The weight of point `i` when the points `s` are interpolated at zero. -/
def zeroWeight (s : Finset ι) (v : ι → F) (i : ι) : F := ∏ j ∈ s.erase i, v j * (v j - v i)⁻¹

theorem eval_zero_basis (i : ι) : (Lagrange.basis s v i).eval 0 = zeroWeight s v i := by
  rw [Lagrange.basis, eval_prod, zeroWeight]
  refine Finset.prod_congr rfl fun j _ => ?_
  rw [Lagrange.basisDivisor, eval_mul, eval_C, eval_sub, eval_X, eval_C, zero_sub,
    ← neg_sub (v j) (v i), inv_neg, neg_mul_neg, mul_comm]

theorem eval_zero_interpolate (s : Finset ι) (v y : ι → F) :
    (Lagrange.interpolate s v y).eval 0 = ∑ i ∈ s, y i * zeroWeight s v i := by
  rw [Lagrange.interpolate_apply, eval_finsetSum]
  refine Finset.sum_congr rfl fun i _ => ?_
  rw [eval_mul, eval_C, eval_zero_basis]

/-- **Reconstruction.** The weighted values of a polynomial with no more
coefficients than points give its value at zero. -/
theorem sum_zeroWeight_mul (hv : Set.InjOn v s) {f : F[X]} (hf : f.degree < s.card) :
    ∑ i ∈ s, f.eval (v i) * zeroWeight s v i = f.eval 0 := by
  conv_rhs => rw [Lagrange.eq_interpolate hv hf, eval_zero_interpolate]

theorem sum_zeroWeight (hv : Set.InjOn v s) (hs : s.Nonempty) :
    ∑ i ∈ s, zeroWeight s v i = 1 := by
  have hone := sum_zeroWeight_mul hv (f := 1)
    (degree_one_le.trans_lt (by exact_mod_cast hs.card_pos))
  simpa using hone

/-- A value that is taken at as many points as there are coefficients is taken at zero. -/
theorem eval_zero_of_forall_eq (hv : Set.InjOn v s) (hs : s.Nonempty) {f : F[X]}
    (hf : f.degree < s.card) {c : F} (hc : ∀ i ∈ s, f.eval (v i) = c) : f.eval 0 = c := by
  calc f.eval 0 = ∑ i ∈ s, f.eval (v i) * zeroWeight s v i := (sum_zeroWeight_mul hv hf).symm
    _ = ∑ i ∈ s, c * zeroWeight s v i := Finset.sum_congr rfl fun i hi => by rw [hc i hi]
    _ = c := by rw [← Finset.mul_sum, sum_zeroWeight hv hs, mul_one]

theorem zeroWeight_congr {v' : ι → F} (h : ∀ i ∈ s, v i = v' i) {i : ι} (hi : i ∈ s) :
    zeroWeight s v i = zeroWeight s v' i := by
  refine Finset.prod_congr rfl fun j hj => ?_
  rw [h i hi, h j (Finset.mem_of_mem_erase hj)]

/-- Weights do not depend on how the points are listed. -/
theorem zeroWeight_image {κ : Type} [DecidableEq κ] {s : Finset ι} {g : ι → κ}
    (hg : Set.InjOn g s) (v : κ → F) {i : ι} (hi : i ∈ s) :
    zeroWeight (s.image g) v (g i) = zeroWeight s (v ∘ g) i := by
  have herase : (s.image g).erase (g i) = (s.erase i).image g := by
    ext k
    simp only [Finset.mem_erase, Finset.mem_image]
    constructor
    · rintro ⟨hne, j, hj, rfl⟩
      exact ⟨j, ⟨fun hji => hne (congrArg g hji), hj⟩, rfl⟩
    · rintro ⟨j, ⟨hne, hj⟩, rfl⟩
      exact ⟨fun heq => hne (hg hj hi heq), j, hj, rfl⟩
  rw [zeroWeight, herase, Finset.prod_image (hg.mono (by simp))]
  rfl

omit [DecidableEq ι] in
theorem injOn_insertNone (hv : Set.InjOn v s) (hzero : ∀ i ∈ s, v i ≠ 0) :
    Set.InjOn (fun o : Option ι => o.elim 0 v) (Finset.insertNone s) := by
  rintro (_ | i) hi (_ | j) hj hij
  · rfl
  · exact absurd hij.symm (hzero j (by simpa using hj))
  · exact absurd hij (hzero i (by simpa using hi))
  · exact congrArg some (hv (by simpa using hi) (by simpa using hj) hij)

/-- **Secrecy.** Through the values at fewer points passes a polynomial with any
value at zero. -/
theorem exists_eval_eq (hv : Set.InjOn v s) (hzero : ∀ i ∈ s, v i ≠ 0) (r : ι → F) (secret : F) :
    ∃ f : F[X], f.degree < (s.card + 1 : ℕ) ∧ f.eval 0 = secret ∧ ∀ i ∈ s, f.eval (v i) = r i := by
  let v' : Option ι → F := fun o => o.elim 0 v
  let r' : Option ι → F := fun o => o.elim secret r
  have hv' : Set.InjOn v' (Finset.insertNone s) := injOn_insertNone hv hzero
  refine ⟨Lagrange.interpolate (Finset.insertNone s) v' r', ?_, ?_, ?_⟩
  · have hdeg := Lagrange.degree_interpolate_lt r' hv'
    rwa [Finset.card_insertNone] at hdeg
  · exact Lagrange.eval_interpolate_at_node r' hv' (by simp : none ∈ Finset.insertNone s)
  · intro i hi
    exact Lagrange.eval_interpolate_at_node r' hv' (by simpa using hi : some i ∈ _)

end Weights

/-! ## Nonzero summands -/

/-- With a third element, every element is the sum of `n ≥ 2` nonzero ones. -/
theorem exists_nonzero_summands {a : F} (ha₀ : a ≠ 0) (ha₁ : a ≠ 1) {n : ℕ} (hn : 2 ≤ n) (c : F) :
    ∃ x : ℕ → F, (∀ k, x k ≠ 0) ∧ ∑ k ∈ Finset.range n, x k = c := by
  induction n, hn using Nat.le_induction generalizing c with
  | base =>
    have hpair : ∀ x, x ≠ 0 → x ≠ c →
        ∃ x : ℕ → F, (∀ k, x k ≠ 0) ∧ ∑ k ∈ Finset.range 2, x k = c := by
      intro x hx₀ hxc
      refine ⟨fun k => if k = 0 then x else c - x, fun k => ?_, ?_⟩
      · change (if k = 0 then x else c - x) ≠ 0
        split
        · exact hx₀
        · exact sub_ne_zero.mpr hxc.symm
      · simp [Finset.sum_range_succ]
    by_cases hc : c = 1
    · exact hpair a ha₀ (hc ▸ ha₁)
    · exact hpair 1 one_ne_zero (Ne.symm hc)
  | succ n _ ih =>
    obtain ⟨x, hx, hsum⟩ := ih (c - 1)
    refine ⟨fun k => if k = n then 1 else x k, fun k => ?_, ?_⟩
    · change (if k = n then 1 else x k) ≠ 0
      split
      · exact one_ne_zero
      · exact hx k
    · have hlt : ∀ k ∈ Finset.range n, (if k = n then 1 else x k) = x k := fun k hk =>
        if_neg (Finset.mem_range.mp hk).ne
      rw [Finset.sum_range_succ, if_pos rfl, Finset.sum_congr rfl hlt, hsum, sub_add_cancel]

end Sharing
