import BioFire.Interpolation
import BioFire.ModularArithmetic
import Mathlib.Algebra.Field.ZMod
import Mathlib.Data.List.GetD

/-!
# Lagrange combination

`lagrangeCoefficient` and `combineSignatures` of `mpc_cmp.ts` over the curve
order, and their reading in the field of residues.

* `lagrangeCoefficient_ok`: the coefficient is the weight of its index, and
  exists when no other index has the same residue;
* `combineSignatures_ok_iff`: the combination is the weighted sum, and exists
  exactly for indices with distinct residues.
-/

namespace BioFire

open Sharing

section

variable (q : ℤ)

/-- The loop over `j`, with `num` and `den`. -/
def lagrangeLoop (i : ℕ) (xi : ℤ) : List ℤ → ℕ → ℤ × ℤ → ℤ × ℤ
  | [], _, acc => acc
  | xj :: rest, j, (num, den) =>
    if i = j then lagrangeLoop i xi rest (j + 1) (num, den)
    else lagrangeLoop i xi rest (j + 1) (modN q (num * xj), modN q (den * (xj - xi)))

def lagrangeCoefficient (indices : List ℤ) (i : ℕ) : Except JSError ℤ :=
  match indices[i]? with
  -- `xi` is `undefined`: the first subtraction throws
  | none =>
    if indices.isEmpty then .ok (modN q 1)
    else .error ⟨.TypeError, js "Cannot mix BigInt and other types, use explicit conversions"⟩
  | some xi => do
    let (num, den) := lagrangeLoop q i xi indices 0 (1, 1)
    let denInv ← modInverseOrder q den
    return modN q (num * denInv)

def combineLoop (indices : List ℤ) : List ℤ → ℕ → ℤ → Except JSError ℤ
  | [], _, combined => .ok combined
  | s :: rest, i, combined => do
    let lambda ← lagrangeCoefficient q indices i
    combineLoop indices rest (i + 1) (modN q (combined + s * lambda))

def combineSignatures (partialSigs indices : List ℤ) : Except JSError ℤ :=
  combineLoop q indices partialSigs 0 0

end

/-! ## Residues -/

section

variable {n : ℕ} [Fact n.Prime]

theorem cast_tmod (a : ℤ) : ((a.tmod n : ℤ) : ZMod n) = a :=
  (ZMod.intCast_eq_intCast_iff _ _ _).mpr (tmod_modEq a n)

theorem order_pos : (0 : ℤ) < n := by exact_mod_cast (Fact.out : n.Prime).pos

@[simp] theorem cast_modN (a : ℤ) : ((modN n a : ℤ) : ZMod n) = a := by
  rw [modN_eq order_pos, ZMod.intCast_mod]

theorem eq_val_of_cast {a : ℤ} {b : ZMod n} (h₀ : 0 ≤ a) (h : a < n) (hab : (a : ZMod n) = b) :
    a = b.val := by
  subst hab
  rw [ZMod.val_intCast, Int.emod_eq_of_lt h₀ h]

theorem cast_eq_zero_iff_gcd (k : ℤ) : (k : ZMod n) = 0 ↔ Int.gcd k n ≠ 1 := by
  have hcop := (Fact.out : n.Prime).coprime_iff_not_dvd (n := k.natAbs)
  rw [ZMod.intCast_zmod_eq_zero_iff_dvd, Int.natCast_dvd, Int.gcd_comm, Int.gcd,
    Int.natAbs_natCast]
  exact (not_iff_comm.mp hcop.symm).symm

theorem modInverseOrder_ok_iff {k : ℤ} :
    (∃ t, modInverseOrder n k = .ok t) ↔ (k : ZMod n) ≠ 0 := by
  have hspec := modInverseOrder_spec (q := n) (by exact_mod_cast (Fact.out : n.Prime).pos) k
  rw [Ne, cast_eq_zero_iff_gcd, not_not]
  split at hspec
  next hone =>
    obtain ⟨t, ht, -⟩ := hspec
    exact ⟨fun _ => hone, fun _ => ⟨t, ht⟩⟩
  next hne => simp [hspec, hne]

theorem cast_modInverseOrder {k t : ℤ} (h : modInverseOrder n k = .ok t) :
    (t : ZMod n) = (k : ZMod n)⁻¹ := by
  have hspec := modInverseOrder_spec (q := n) (by exact_mod_cast (Fact.out : n.Prime).pos) k
  split at hspec
  next =>
    obtain ⟨t', ht', hmod⟩ := hspec
    obtain rfl : t' = t := Except.ok.inj (ht'.symm.trans h)
    have hcast := (ZMod.intCast_eq_intCast_iff _ _ _).mpr hmod
    exact eq_inv_of_mul_eq_one_left (by exact_mod_cast hcast)
  next => rw [hspec] at h; cases h

/-! ## Weights -/

/-- The residue of an index of the list. -/
def indexResidue (n : ℕ) (indices : List ℤ) (j : ℕ) : ZMod n := (indices.getD j 0 : ℤ)

theorem lagrangeLoop_spec (i : ℕ) (xi : ℤ) (v : ℕ → ZMod n) (l : List ℤ) (k : ℕ)
    (hv : ∀ j (h : j < l.length), (l[j] : ZMod n) = v (k + j)) (num den : ℤ) :
    ((lagrangeLoop n i xi l k (num, den)).1 : ZMod n) =
        num * ∏ j ∈ Finset.range l.length, (if k + j = i then 1 else v (k + j)) ∧
      ((lagrangeLoop n i xi l k (num, den)).2 : ZMod n) =
        den * ∏ j ∈ Finset.range l.length, (if k + j = i then 1 else v (k + j) - xi) := by
  induction l generalizing k num den with
  | nil => simp [lagrangeLoop]
  | cons x l ih =>
    have hx : (x : ZMod n) = v k := hv 0 (by simp)
    have hrest : ∀ j (h : j < l.length), (l[j] : ZMod n) = v (k + 1 + j) := by
      intro j h
      have hj := hv (j + 1) (by simpa using h)
      rwa [List.getElem_cons_succ, ← add_assoc, add_right_comm] at hj
    simp only [lagrangeLoop, List.length_cons, Finset.prod_range_succ', add_zero, ← add_assoc]
    by_cases hk : i = k
    · obtain ⟨hnum, hden⟩ := ih (k + 1) hrest num den
      simp only [add_right_comm k 1] at hnum hden
      rw [if_pos hk, if_pos hk.symm, if_pos hk.symm, hnum, hden, mul_one, mul_one]
      exact ⟨rfl, rfl⟩
    · obtain ⟨hnum, hden⟩ :=
        ih (k + 1) hrest (modN n (num * x)) (modN n (den * (x - xi)))
      simp only [add_right_comm k 1] at hnum hden
      rw [if_neg hk, if_neg (Ne.symm hk), if_neg (Ne.symm hk), hnum, hden]
      simp only [cast_modN, Int.cast_mul, Int.cast_sub, hx]
      constructor <;> ring

theorem prod_ite_eq_erase (i L : ℕ) (f : ℕ → ZMod n) :
    ∏ j ∈ Finset.range L, (if 0 + j = i then 1 else f (0 + j)) =
      ∏ j ∈ (Finset.range L).erase i, f j := by
  rw [← Finset.prod_erase (a := i) (Finset.range L) (by simp)]
  refine Finset.prod_congr rfl fun j hj => ?_
  rw [zero_add, if_neg (Finset.ne_of_mem_erase hj)]

/-- The coefficient of an index is its weight at zero; there is none when another
index has the same residue. -/
theorem lagrangeCoefficient_ok {indices : List ℤ} {i : ℕ} (hi : i < indices.length) :
    ((∃ l, lagrangeCoefficient n indices i = .ok l) ↔
      ∀ j < indices.length, indexResidue n indices j = indexResidue n indices i → j = i) ∧
    ∀ l, lagrangeCoefficient n indices i = .ok l →
      (l : ZMod n) = zeroWeight (Finset.range indices.length) (indexResidue n indices) i := by
  have hv : ∀ j (h : j < indices.length),
      (indices[j] : ZMod n) = indexResidue n indices (0 + j) := by
    intro j h
    rw [zero_add, indexResidue, List.getD_eq_getElem _ _ h]
  obtain ⟨hnum, hden⟩ := lagrangeLoop_spec i indices[i] (indexResidue n indices) indices 0 hv 1 1
  rw [hv i hi, zero_add] at hden
  rw [Int.cast_one, one_mul, prod_ite_eq_erase] at hnum
  rw [Int.cast_one, one_mul, prod_ite_eq_erase i _ fun j =>
    indexResidue n indices j - indexResidue n indices i] at hden
  rcases e : lagrangeLoop n i indices[i] indices 0 (1, 1) with ⟨num, den⟩
  simp only [e] at hnum hden
  have hrun : lagrangeCoefficient n indices i = do
      let denInv ← modInverseOrder n den
      return modN n (num * denInv) := by
    simp only [lagrangeCoefficient, List.getElem?_eq_getElem hi, e]
  rw [hrun]
  constructor
  · have hne : (den : ZMod n) ≠ 0 ↔
        ∀ j < indices.length, indexResidue n indices j = indexResidue n indices i → j = i := by
      rw [hden, Finset.prod_ne_zero_iff]
      constructor
      · intro h j hj hij
        by_contra hne
        exact h j (Finset.mem_erase.mpr ⟨hne, Finset.mem_range.mpr hj⟩) (sub_eq_zero.mpr hij)
      · intro h j hj hzero
        obtain ⟨hne, hj⟩ := Finset.mem_erase.mp hj
        exact hne (h j (Finset.mem_range.mp hj) (sub_eq_zero.mp hzero))
    rw [← hne, ← modInverseOrder_ok_iff]
    constructor
    · rintro ⟨l, hl⟩
      cases hinv : modInverseOrder n den with
      | error err => rw [hinv] at hl; cases hl
      | ok t => exact ⟨t, rfl⟩
    · rintro ⟨t, ht⟩
      exact ⟨_, by rw [ht]; rfl⟩
  · intro l hl
    cases hinv : modInverseOrder n den with
    | error err => rw [hinv] at hl; cases hl
    | ok t =>
      rw [hinv] at hl
      obtain rfl : modN n (num * t) = l := Except.ok.inj hl
      rw [cast_modN, Int.cast_mul, hnum, cast_modInverseOrder hinv, hden, zeroWeight,
        Finset.prod_mul_distrib, Finset.prod_inv_distrib]

/-! ## The combination -/

/-- The loop adds the weighted partial signatures, as long as every index is
apart from the others. -/
theorem combineLoop_ok_iff {indices : List ℤ} (l : List ℤ) (k : ℕ)
    (hlen : k + l.length = indices.length) {combined c : ℤ} (h₀ : 0 ≤ combined)
    (h : combined < n) :
    combineLoop n indices l k combined = .ok c ↔
      (∀ i, k ≤ i → i < indices.length → ∀ j < indices.length,
        indexResidue n indices j = indexResidue n indices i → j = i) ∧
      c = ((combined : ZMod n) + ∑ j ∈ Finset.range l.length, (l.getD j 0 : ℤ) *
        zeroWeight (Finset.range indices.length) (indexResidue n indices) (k + j)).val := by
  induction l generalizing k combined with
  | nil =>
    have hval := eq_val_of_cast h₀ h rfl
    simp only [combineLoop, List.length_nil, Finset.sum_range_zero, add_zero, ← hval,
      Except.ok.injEq]
    constructor
    · rintro rfl
      exact ⟨fun i hk hi => by simp at hlen; omega, rfl⟩
    · rintro ⟨-, rfl⟩
      rfl
  | cons s l ih =>
    have hk : k < indices.length := by simp at hlen; omega
    obtain ⟨hexists, hweight⟩ := lagrangeCoefficient_ok (n := n) hk
    cases hlambda : lagrangeCoefficient n indices k with
    | error e =>
      refine iff_of_false (by simp [combineLoop, hlambda, bind, Except.bind]) ?_
      rintro ⟨hinj, -⟩
      obtain ⟨l, hl⟩ := hexists.mpr (hinj k le_rfl hk)
      cases hlambda.symm.trans hl
    | ok lambda =>
      have hrange : 0 ≤ modN n (combined + s * lambda) ∧ modN n (combined + s * lambda) < n := by
        rw [modN_eq order_pos]
        exact ⟨Int.emod_nonneg _ order_pos.ne', Int.emod_lt_of_pos _ order_pos⟩
      have hrun : combineLoop n indices (s :: l) k combined =
          combineLoop n indices l (k + 1) (modN n (combined + s * lambda)) := by
        simp only [combineLoop, hlambda, bind, Except.bind]
      have hfirst := hexists.mp ⟨lambda, hlambda⟩
      rw [hrun, ih (k + 1) (by simp at hlen; omega) hrange.1 hrange.2, List.length_cons,
        Finset.sum_range_succ', cast_modN]
      refine and_congr ⟨fun hrest i hki => ?_, fun hall i hki => hall i (by omega)⟩ ?_
      · rcases hki.eq_or_lt with rfl | hlt
        · exact fun _ => hfirst
        · exact hrest i hlt
      · simp only [List.getD_cons_succ, List.getD_cons_zero, add_zero, Int.cast_add, Int.cast_mul,
          hweight lambda hlambda, ← add_assoc, add_right_comm k 1]
        rw [add_right_comm (combined : ZMod n)]

/-- **Combination** at zero: the weighted sum, for indices with distinct residues. -/
theorem combineSignatures_ok_iff {partialSigs indices : List ℤ}
    (hlen : partialSigs.length = indices.length) {c : ℤ} :
    combineSignatures n partialSigs indices = .ok c ↔
      Set.InjOn (indexResidue n indices) (Finset.range indices.length) ∧
      c = (∑ i ∈ Finset.range indices.length, (partialSigs.getD i 0 : ℤ) *
        zeroWeight (Finset.range indices.length) (indexResidue n indices) i).val := by
  rw [combineSignatures, combineLoop_ok_iff partialSigs 0 (by simpa using hlen) le_rfl order_pos,
    Int.cast_zero, zero_add, hlen]
  refine and_congr ⟨fun h i hi j hj hij => ?_, fun h i _ hi j hj hij => ?_⟩ (by simp only [zero_add])
  · exact h j (Nat.zero_le j) (by simpa using hj) i (by simpa using hi) hij
  · exact h (by simpa using hj) (by simpa using hi) hij

/-- Values of a polynomial with as many coefficients as indices combine to its
value at zero. -/
theorem combineSignatures_interpolates {partialSigs indices : List ℤ}
    (hlen : partialSigs.length = indices.length)
    (hinj : Set.InjOn (indexResidue n indices) (Finset.range indices.length))
    {f : Polynomial (ZMod n)} (hf : f.degree < indices.length)
    (hval : ∀ i < indices.length,
      (partialSigs.getD i 0 : ZMod n) = f.eval (indexResidue n indices i)) :
    combineSignatures n partialSigs indices = .ok ((f.eval 0).val : ℤ) := by
  rw [combineSignatures_ok_iff hlen]
  refine ⟨hinj, ?_⟩
  rw [← sum_zeroWeight_mul hinj (by rwa [Finset.card_range])]
  congr 2
  exact Finset.sum_congr rfl fun i hi => by rw [hval i (Finset.mem_range.mp hi)]

theorem injOn_natCast {positions : List ℕ} (hlt : ∀ i ∈ positions, i < n) :
    Set.InjOn (Nat.cast : ℕ → ZMod n) {i | i ∈ positions} :=
  (CharP.natCast_injOn_Iio (ZMod n) n).mono hlt

theorem injOn_getD {positions : List ℕ} (hnodup : positions.Nodup) :
    Set.InjOn (fun j => positions.getD j 0) (Finset.range positions.length) := by
  intro j hj k hk hjk
  have hj' : j < positions.length := by simpa using hj
  have hk' : k < positions.length := by simpa using hk
  change positions.getD j 0 = positions.getD k 0 at hjk
  rw [List.getD_eq_getElem _ _ hj', List.getD_eq_getElem _ _ hk'] at hjk
  exact (List.Nodup.getElem_inj_iff hnodup).mp hjk

theorem indexResidue_positions (positions : List ℕ) :
    indexResidue n (positions.map Int.ofNat) =
      (Nat.cast : ℕ → ZMod n) ∘ fun j => positions.getD j 0 := by
  funext j
  rw [indexResidue, Function.comp, show (0 : ℤ) = Int.ofNat 0 from rfl, List.getD_map]
  simp

theorem injOn_positions {positions : List ℕ} (hnodup : positions.Nodup)
    (hlt : ∀ i ∈ positions, i < n) :
    Set.InjOn (indexResidue n (positions.map Int.ofNat))
      (Finset.range (positions.map Int.ofNat).length) := by
  rw [indexResidue_positions, List.length_map]
  refine (injOn_natCast hlt).comp (injOn_getD hnodup) fun j hj => ?_
  have hj' : j < positions.length := by simpa using hj
  change positions.getD j 0 ∈ positions
  rw [List.getD_eq_getElem _ _ hj']
  exact List.getElem_mem hj'

/-- The combination of one value for each of several objects with distinct indices. -/
theorem combineSignatures_indexed {chosen : List ℕ} (hnodup : chosen.Nodup) (index value : ℕ → ℤ)
    (hinj : Set.InjOn (fun i => (index i : ZMod n)) {i | i ∈ chosen}) :
    combineSignatures n (chosen.map value) (chosen.map index) =
      .ok ((∑ i ∈ chosen.toFinset, (value i : ZMod n) *
        zeroWeight chosen.toFinset (fun i => (index i : ZMod n)) i).val : ℤ) := by
  have himage : (Finset.range chosen.length).image (fun j => chosen.getD j 0) =
      chosen.toFinset := by
    ext i
    simp only [Finset.mem_image, Finset.mem_range, List.mem_toFinset, List.mem_iff_getElem]
    constructor
    · rintro ⟨j, hj, rfl⟩
      exact ⟨j, hj, (List.getD_eq_getElem _ _ hj).symm⟩
    · rintro ⟨j, hj, rfl⟩
      exact ⟨j, hj, List.getD_eq_getElem _ _ hj⟩
  have hgetD : ∀ (f : ℕ → ℤ), ∀ j ∈ Finset.range chosen.length,
      (chosen.map f).getD j 0 = f (chosen.getD j 0) := by
    intro f j hj
    have hj' : j < chosen.length := Finset.mem_range.mp hj
    rw [List.getD_eq_getElem _ _ (by simpa using hj'), List.getElem_map,
      List.getD_eq_getElem _ _ hj']
  have hresidue : ∀ j ∈ Finset.range chosen.length, indexResidue n (chosen.map index) j =
      ((fun i => (index i : ZMod n)) ∘ fun j => chosen.getD j 0) j := by
    intro j hj
    rw [indexResidue, hgetD index j hj]
    rfl
  have hcomp : Set.InjOn ((fun i => (index i : ZMod n)) ∘ fun j => chosen.getD j 0)
      (Finset.range chosen.length) := by
    refine hinj.comp (injOn_getD hnodup) fun j hj => ?_
    have hj' : j < chosen.length := by simpa using hj
    change chosen.getD j 0 ∈ chosen
    rw [List.getD_eq_getElem _ _ hj']
    exact List.getElem_mem hj'
  rw [combineSignatures_ok_iff (by simp), List.length_map]
  refine ⟨hcomp.congr fun j hj => (hresidue j hj).symm, ?_⟩
  rw [← himage, Finset.sum_image (injOn_getD hnodup)]
  congr 2
  refine Finset.sum_congr rfl fun j hj => ?_
  rw [zeroWeight_image (injOn_getD hnodup) _ hj, hgetD value j hj, zeroWeight_congr hresidue hj]

/-- The combination of one value for each of several positions. -/
theorem combineSignatures_positions {positions : List ℕ} (hnodup : positions.Nodup)
    (hlt : ∀ i ∈ positions, i < n) (value : ℕ → ℤ) :
    combineSignatures n (positions.map value) (positions.map Int.ofNat) =
      .ok ((∑ i ∈ positions.toFinset, (value i : ZMod n) *
        zeroWeight positions.toFinset (Nat.cast : ℕ → ZMod n) i).val : ℤ) := by
  have hcast : (fun i : ℕ => (Int.ofNat i : ZMod n)) = Nat.cast := by
    funext i
    exact Int.cast_natCast i
  have h := combineSignatures_indexed hnodup Int.ofNat value (hcast ▸ injOn_natCast hlt)
  rwa [hcast] at h

end

end BioFire
