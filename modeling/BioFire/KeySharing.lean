import BioFire.Dkg

/-!
# Shares of the generated key

* `dkg_reconstruction`: any `t` stored shares combine to the sum of the constant
  coefficients, whose point is the master public key;
* `dkg_secrecy`: `t - 1` stored shares fit every secret.
-/

namespace BioFire.Mpc

open Sharing

/-- The share stored for the party at a 1-based position of the session. -/
def storedShare (state : DkgState) (session : DKGSession) (position : ℕ) : Option ℤ :=
  (state.nodeShares.get session.sessionId).bind fun allShares =>
    session.parties[position - 1]?.bind fun party => allShares.get party.id

section

variable {G : Type} [AddCommGroup G] {curve : Curve G}

/-- The sum of the constant coefficients modulo the order. -/
def sharedSecret (curve : Curve G) (totalParties : ℕ)
    (coefficient : ℕ → ℕ → Scalar curve.CURVE_ORDER) : ℤ :=
  (∑ i ∈ Finset.range totalParties, (coefficient i 0).1) % curve.n

/-- The share that the evaluation loops give to a 1-based position. -/
def shareAt (curve : Curve G) (threshold totalParties : ℕ)
    (coefficient : ℕ → ℕ → Scalar curve.CURVE_ORDER) (position : ℕ) : ℤ :=
  totalShare curve (partyPolynomials curve threshold totalParties coefficient) position

/-! ## The aggregate of a run -/

theorem polynomialOf_coefficientList (threshold : ℕ)
    (coefficient : ℕ → Scalar curve.CURVE_ORDER) :
    polynomialOf curve.n (coefficientList curve threshold coefficient) =
      ofCoeffs ((List.range threshold).map fun j => ((coefficient j).1 : ZMod curve.n)) := by
  rw [polynomialOf, coefficientList, List.map_map]
  rfl

theorem coeff_aggregate (threshold totalParties : ℕ)
    (coefficient : ℕ → ℕ → Scalar curve.CURVE_ORDER) {j : ℕ} (hj : j < threshold) :
    (aggregate curve.n (partyPolynomials curve threshold totalParties coefficient)).coeff j =
      ∑ i ∈ Finset.range totalParties, ((coefficient i j).1 : ZMod curve.n) := by
  have hsum : aggregate curve.n (partyPolynomials curve threshold totalParties coefficient) =
      ∑ i ∈ Finset.range totalParties,
        polynomialOf curve.n (coefficientList curve threshold (coefficient i)) := by
    rw [aggregate, partyPolynomials, List.map_map]
    rfl
  rw [hsum, Polynomial.finsetSum_coeff]
  refine Finset.sum_congr rfl fun i _ => ?_
  rw [polynomialOf_coefficientList, coeff_ofCoeffs, List.getD_eq_getElem _ _ (by simpa using hj),
    List.getElem_map, List.getElem_range]

theorem degree_partyPolynomials_lt (threshold totalParties : ℕ)
    (coefficient : ℕ → ℕ → Scalar curve.CURVE_ORDER) :
    (aggregate curve.n (partyPolynomials curve threshold totalParties coefficient)).degree <
      threshold := by
  refine degree_aggregate_lt fun cs hcs => ?_
  obtain ⟨i, -, rfl⟩ := List.mem_map.mp hcs
  simp [coefficientList]

theorem partyPolynomials_nonneg (threshold totalParties : ℕ)
    (coefficient : ℕ → ℕ → Scalar curve.CURVE_ORDER) :
    ∀ cs ∈ partyPolynomials curve threshold totalParties coefficient, ∀ c ∈ cs, 0 ≤ c := by
  intro cs hcs c hc
  obtain ⟨i, -, rfl⟩ := List.mem_map.mp hcs
  obtain ⟨j, -, rfl⟩ := List.mem_map.mp hc
  have := (coefficient i j).2.1
  omega

theorem eval_zero_aggregate {threshold : ℕ} (ht : 1 ≤ threshold) (totalParties : ℕ)
    (coefficient : ℕ → ℕ → Scalar curve.CURVE_ORDER) :
    ((aggregate curve.n (partyPolynomials curve threshold totalParties coefficient)).eval 0).val =
      sharedSecret curve totalParties coefficient := by
  rw [← Polynomial.coeff_zero_eq_eval_zero, coeff_aggregate _ _ _ ht, sharedSecret,
    ← ZMod.val_intCast]
  push_cast
  rfl

/-- The share of a position is the value of the aggregate there. -/
theorem shareAt_eq (threshold totalParties : ℕ)
    (coefficient : ℕ → ℕ → Scalar curve.CURVE_ORDER) (position : ℕ) :
    shareAt curve threshold totalParties coefficient position =
      ((aggregate curve.n (partyPolynomials curve threshold totalParties coefficient)).eval
        (position : ZMod curve.n)).val := by
  rw [shareAt, totalShare_eq (Int.natCast_nonneg position)
    (partyPolynomials_nonneg threshold totalParties coefficient), Int.cast_natCast]

/-- Nonzero residues as results of `randomScalar`. -/
def scalarOf (curve : Curve G) (a : ZMod curve.n) (ha : a ≠ 0) : Scalar curve.CURVE_ORDER :=
  ⟨a.val, by
    have hpos : a.val ≠ 0 := (ZMod.val_ne_zero a).mpr ha
    omega, by exact_mod_cast ZMod.val_lt a⟩

/-- With at least two nodes, the aggregate can be any polynomial with `t` coefficients. -/
theorem exists_coefficient {t n : ℕ} (hn₂ : 2 ≤ n) (hn : n < curve.n)
    {f : Polynomial (ZMod curve.n)} (hf : f.degree < t) :
    ∃ coefficient : ℕ → ℕ → Scalar curve.CURVE_ORDER,
      aggregate curve.n (partyPolynomials curve t n coefficient) = f := by
  have htwo : (2 : ZMod curve.n) ≠ 0 := by
    have hcast : ((2 : ℕ) : ZMod curve.n) ≠ 0 := by
      rw [Ne, ZMod.natCast_eq_zero_iff]
      exact fun hdvd => absurd (Nat.le_of_dvd (by omega) hdvd) (by omega)
    exact_mod_cast hcast
  have hone : (2 : ZMod curve.n) ≠ 1 := by
    intro h
    have hzero : (2 : ZMod curve.n) - 1 = 0 := sub_eq_zero.mpr h
    norm_num at hzero
  choose x hx hsum using fun j => exists_nonzero_summands htwo hone hn₂ (f.coeff j)
  refine ⟨fun i j => scalarOf curve (x j i) (hx j i), ?_⟩
  ext j
  by_cases hj : j < t
  · rw [coeff_aggregate _ _ _ hj, ← hsum j]
    refine Finset.sum_congr rfl fun i _ => ?_
    simp [scalarOf]
  · have hle : (t : WithBot ℕ) ≤ j := by exact_mod_cast not_lt.mp hj
    rw [Polynomial.coeff_eq_zero_of_degree_lt ((degree_partyPolynomials_lt t n _).trans_le hle),
      Polynomial.coeff_eq_zero_of_degree_lt (hf.trans_le hle)]

theorem Executed.storedShare_eq [DecidableEq G] {state state' : DkgState} {threshold totalParties : ℕ}
    {random : DkgRandomness curve.CURVE_ORDER} {session : DKGSession}
    (h : Executed curve state state' threshold totalParties random session) {position : ℕ}
    (h₁ : 1 ≤ position) (hn : position ≤ totalParties) :
    storedShare state' session position =
      some (shareAt curve threshold totalParties random.coefficient position) := by
  have hlen : session.parties.length = totalParties := by
    have hlen := congrArg List.length h.parties_ids
    rwa [List.length_map, List.length_map, selectedNodes_length] at hlen
  obtain ⟨allShares, hall, hshare⟩ := h.shares
  have hi : position - 1 < session.parties.length := by omega
  rw [storedShare, hall, Option.bind_some, List.getElem?_eq_getElem hi, Option.bind_some,
    hshare _ hi, Nat.sub_add_cancel h₁, shareAt]

/-! ## Reconstruction and secrecy -/

variable [DecidableEq G]

/-- **Reconstruction.** Any `t` stored shares combine to the sum of the constant
coefficients, and the master public key is that multiple of the base point. -/
theorem dkg_reconstruction {state state' : DkgState} {t n : ℕ} {curveType : JSString}
    {random : DkgRandomness curve.CURVE_ORDER} {now : ℤ} {session : DKGSession}
    (ht : 1 ≤ t) (hn : n < curve.n)
    (hids : ((selectedNodes state n).map NodeConfig.id).Nodup)
    (h : executeDKG curve state t n curveType random now = (state', .ok session))
    {positions : List ℕ} (hlen : positions.length = t) (hnodup : positions.Nodup)
    (hpos : ∀ i ∈ positions, 1 ≤ i ∧ i ≤ n) :
    ∃ shares : List ℤ, positions.map (storedShare state' session) = shares.map some ∧
      combineSignatures curve.CURVE_ORDER shares (positions.map Int.ofNat) =
        .ok (sharedSecret curve n random.coefficient) ∧
      session.masterPublicKey = js "0x" ++ bytesToHex
        (curve.encode (sharedSecret curve n random.coefficient • curve.BASE)) := by
  have he := executeDKG_ok hids h
  refine ⟨positions.map (shareAt curve t n random.coefficient), ?_, ?_, ?_⟩
  · rw [List.map_map]
    exact List.map_congr_left fun i hi => he.storedShare_eq (hpos i hi).1 (hpos i hi).2
  · rw [← eval_zero_aggregate ht]
    refine combineSignatures_interpolates (by simp)
      (injOn_positions hnodup fun i hi => (hpos i hi).2.trans_lt hn) ?_ fun i hi => ?_
    · simpa [hlen] using degree_partyPolynomials_lt t n random.coefficient
    · have hi' : i < positions.length := by simpa using hi
      rw [indexResidue_positions, Function.comp, List.getD_eq_getElem _ _ (by simpa using hi'),
        List.getD_eq_getElem _ _ hi', List.getElem_map, shareAt_eq]
      simp
  · rw [he.masterPublicKey_eq, Curve.point, eval_zero_aggregate ht]

/-- The module state before the first call. -/
def emptyState : DkgState := ⟨[], .empty, .empty, .empty⟩

/-- Two nodes with the polynomials `3 + 5 X` and `4 + 6 X`. -/
def twoNodes : DkgRandomness Curve.curve43.CURVE_ORDER where
  sessionId := List.replicate 16 0
  coefficient i j :=
    if i = 0 then if j = 0 then ⟨3, by decide⟩ else ⟨5, by decide⟩
    else if j = 0 then ⟨4, by decide⟩ else ⟨6, by decide⟩
  paillierKeys _ := .ok (keyPairOf 7 11 18)
  attestation _ := List.replicate 16 0

theorem dkg_reconstruction_twoNodes :
    ∃ state' session, executeDKG Curve.curve43 emptyState 2 2 (js "secp256k1") twoNodes 0 =
        (state', .ok session) ∧
      ∃ shares : List ℤ, [2, 1].map (storedShare state' session) = shares.map some ∧
        combineSignatures Curve.curve43.CURVE_ORDER shares ([2, 1].map Int.ofNat) =
          .ok (sharedSecret Curve.curve43 2 twoNodes.coefficient) ∧
        session.masterPublicKey = js "0x" ++ bytesToHex (Curve.curve43.encode
          (sharedSecret Curve.curve43 2 twoNodes.coefficient • Curve.curve43.BASE)) := by
  obtain ⟨state', session, h⟩ : ∃ state' session, executeDKG Curve.curve43 emptyState 2 2
      (js "secp256k1") twoNodes 0 = (state', .ok session) := ⟨_, _, rfl⟩
  exact ⟨state', session, h, dkg_reconstruction (t := 2) (by decide) (by decide) (by decide) h rfl
    (by decide) (by decide)⟩

/-- **Secrecy.** For `t - 1` positions and any secret there are coefficients of all
nodes with the same shares at these positions and that secret. -/
theorem dkg_secrecy {state : DkgState} {t n : ℕ} {curveType : JSString}
    (random : DkgRandomness curve.CURVE_ORDER) {now : ℤ}
    (ht : 2 ≤ t) (htn : t ≤ n) (hn : n < curve.n)
    (hids : ((selectedNodes state n).map NodeConfig.id).Nodup)
    {positions : List ℕ} (hlen : positions.length = t - 1) (hnodup : positions.Nodup)
    (hpos : ∀ i ∈ positions, 1 ≤ i ∧ i ≤ n) {secret : ℤ} (hs₀ : 0 ≤ secret)
    (hs : secret < curve.n) :
    ∃ coefficient : ℕ → ℕ → Scalar curve.CURVE_ORDER,
      sharedSecret curve n coefficient = secret ∧
      (∀ i ∈ positions, shareAt curve t n coefficient i = shareAt curve t n random.coefficient i) ∧
      ∀ state₁ session₁ state₂ session₂,
        executeDKG curve state t n curveType random now = (state₁, .ok session₁) →
        executeDKG curve state t n curveType { random with coefficient } now =
          (state₂, .ok session₂) →
        ∀ i ∈ positions, storedShare state₁ session₁ i = storedShare state₂ session₂ i := by
  have hcard : positions.toFinset.card + 1 = t := by
    rw [List.toFinset_card_of_nodup hnodup]
    omega
  have hinj : Set.InjOn (fun i : ℕ => (i : ZMod curve.n)) (positions.toFinset : Set ℕ) := by
    rw [List.coe_toFinset]
    exact injOn_natCast fun i hi => (hpos i hi).2.trans_lt hn
  have hne : ∀ i ∈ positions.toFinset, (i : ZMod curve.n) ≠ 0 := by
    intro i hi
    have hi' := hpos i (by simpa using hi)
    rw [Ne, ZMod.natCast_eq_zero_iff]
    exact fun hdvd => absurd (Nat.le_of_dvd (by omega) hdvd) (by omega)
  obtain ⟨f, hdeg, hzero, hval⟩ := exists_eval_eq hinj hne
    (fun i => (aggregate curve.n (partyPolynomials curve t n random.coefficient)).eval
      (i : ZMod curve.n)) (secret : ZMod curve.n)
  rw [hcard] at hdeg
  obtain ⟨coefficient, haggr⟩ := exists_coefficient (by omega) hn hdeg
  have hshare : ∀ i ∈ positions,
      shareAt curve t n coefficient i = shareAt curve t n random.coefficient i := by
    intro i hi
    rw [shareAt_eq, shareAt_eq, haggr, hval i (by simpa using hi)]
  refine ⟨coefficient, ?_, hshare, ?_⟩
  · rw [← eval_zero_aggregate (by omega : 1 ≤ t), haggr, hzero, ZMod.val_intCast,
      Int.emod_eq_of_lt hs₀ hs]
  · intro state₁ session₁ state₂ session₂ h₁ h₂ i hi
    rw [(executeDKG_ok hids h₁).storedShare_eq (hpos i hi).1 (hpos i hi).2,
      (executeDKG_ok hids h₂).storedShare_eq (hpos i hi).1 (hpos i hi).2, hshare i hi]

theorem dkg_secrecy_twoNodes :
    ∃ coefficient : ℕ → ℕ → Scalar Curve.curve43.CURVE_ORDER,
      sharedSecret Curve.curve43 2 coefficient = 12 ∧
      (∀ i ∈ [1], shareAt Curve.curve43 2 2 coefficient i =
        shareAt Curve.curve43 2 2 twoNodes.coefficient i) ∧
      ∀ state₁ session₁ state₂ session₂,
        executeDKG Curve.curve43 emptyState 2 2 (js "secp256k1") twoNodes 0 =
          (state₁, .ok session₁) →
        executeDKG Curve.curve43 emptyState 2 2 (js "secp256k1") { twoNodes with coefficient } 0 =
          (state₂, .ok session₂) →
        ∀ i ∈ [1], storedShare state₁ session₁ i = storedShare state₂ session₂ i :=
  dkg_secrecy twoNodes (by decide) (by decide) (by decide) (by decide) rfl (by decide) (by decide)
    (by decide) (by decide)

end

end BioFire.Mpc
