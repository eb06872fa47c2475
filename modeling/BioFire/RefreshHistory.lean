import BioFire.KeyRefresh
import BioFire.Runs

/-!
# Histories of refreshes (`src/lib/protocol/key_refresh_engine.ts`)

Every party refreshes when it likes. A call that fails may have replaced the share before it
failed, and then counts as well.

* `executeRefresh_share`: what one call, whether it returns or throws, does to the share;
* `history_share`: the share after any calls;
* `refresh_history_iff`: the histories of all parties after which a group of `t` still combines
  to the old secret.
-/

namespace BioFire.KeyRefresh

open Mpc Runs Sharing

section

variable {G : Type} [AddCommGroup G] [DecidableEq G] (curve : Curve G) (sha256 : Bytes → Digest)

/-- The draws and answers of a call of `executeRefresh` in which `randomScalar` does not throw. -/
structure DrawnRefresh where
  refresh : RefreshRun curve.CURVE_ORDER
  coefficient : ℕ → Scalar curve.CURVE_ORDER
  coefficient_eq : refresh.coefficient = fun j => .ok (coefficient j)

/-- The value of the new share, up to the statement that installs it. -/
def refreshedShare (engine : KeyRefreshEngine) (share : SecureBigInt)
    (refresh : RefreshRun curve.CURVE_ORDER) : Except JSError ℤ := do
  let newEpoch := engine.currentEpoch + 1
  let polynomial ← zeroPolynomial curve engine.threshold refresh.coefficient
  let _ ← sendSubShares curve sha256 engine newEpoch polynomial refresh
    refresh.connectedPeers.zipIdx
  newShareValue curve engine (polynomial.map Prod.fst)
    (collectSubShares engine newEpoch refresh.connectedPeers .empty []).1.values share

/-- The call installs a new share, even if it throws behind that. -/
def replacesShare (engine : KeyRefreshEngine) (refresh : RefreshRun curve.CURVE_ORDER) : Bool :=
  match engine.currentShare with
  | none => false
  | some share => (refreshedShare curve sha256 engine share refresh).isOk

def engineAfter (engine : KeyRefreshEngine) (call : DrawnRefresh curve) : KeyRefreshEngine :=
  (executeRefresh curve sha256 engine call.refresh).1

/-- The calls of a history that replace the share. -/
def effective (engine : KeyRefreshEngine) : List (DrawnRefresh curve) → List (DrawnRefresh curve)
  | [] => []
  | call :: history =>
    (if replacesShare curve sha256 engine call.refresh then [call] else []) ++
      effective (engineAfter curve sha256 engine call) history

variable {curve sha256}

/-- What a call adds to the share of `node-i`. -/
noncomputable def DrawnRefresh.contribution (threshold i : ℕ) (call : DrawnRefresh curve) :
    ZMod curve.n :=
  (zeroSharing curve threshold call.coefficient).eval (nodeIndex i : ZMod curve.n)

theorem executeRefresh_engine {engine : KeyRefreshEngine} {share : SecureBigInt}
    {paillierKeys : PaillierKeyPair} (hshare : engine.currentShare = some share)
    (hkeys : engine.currentPaillier = some paillierKeys) (refresh : RefreshRun curve.CURVE_ORDER) :
    (executeRefresh curve sha256 engine refresh).1 =
      match refreshedShare curve sha256 engine share refresh, refresh.paillierKeys with
      | .error _, _ => engine
      | .ok value, .error _ => { engine with currentShare := some (.create value) }
      | .ok value, .ok newPaillierKeys => { engine with
          currentShare := some (.create value)
          currentPaillier := some newPaillierKeys
          currentEpoch := engine.currentEpoch + 1 } := by
  simp only [executeRefresh, refreshedShare, hshare, hkeys]
  cases hpolynomial : zeroPolynomial curve engine.threshold refresh.coefficient with
  | error e => rfl
  | ok polynomial =>
    cases hsent : sendSubShares curve sha256 engine (engine.currentEpoch + 1) polynomial refresh
        refresh.connectedPeers.zipIdx with
    | error e => simp [bind, Except.bind, hsent]
    | ok packages =>
      simp only [bind, Except.bind, hsent, pure, Except.pure]
      cases newShareValue curve engine (polynomial.map Prod.fst)
          (collectSubShares engine (engine.currentEpoch + 1) refresh.connectedPeers .empty
            []).1.values share with
      | error e => rfl
      | ok value =>
        cases refresh.paillierKeys with
        | error e => rfl
        | ok newPaillierKeys => rfl

theorem refreshedShare_ok {i threshold totalParties epoch : ℕ} {share value : ℤ}
    {paillierKeys : PaillierKeyPair} {call : DrawnRefresh curve}
    (h : refreshedShare curve sha256 (initializeEngine (nodeName i) threshold totalParties
      (.create share) paillierKeys epoch) (.create share) call.refresh = .ok value) :
    (value : ZMod curve.n) = share + call.contribution threshold i := by
  obtain ⟨polynomial, hpolynomial, h⟩ := bind_eq_ok h
  obtain ⟨packages, -, h⟩ := bind_eq_ok h
  rw [call.coefficient_eq] at hpolynomial
  rw [zeroPolynomial_ok hpolynomial] at h
  exact newShareValue_ok rfl (collectSubShares_zero _ _ _ _ fun v hv => by cases hv) h

/-- **One call.** It replaces the share by one with its polynomial added, or keeps it. -/
theorem executeRefresh_share (i threshold totalParties epoch : ℕ) (share : ℤ)
    (paillierKeys : PaillierKeyPair) (call : DrawnRefresh curve) :
    let engine := initializeEngine (nodeName i) threshold totalParties (.create share)
      paillierKeys epoch
    ∃ share' paillierKeys' epoch', engineAfter curve sha256 engine call =
        initializeEngine (nodeName i) threshold totalParties (.create share') paillierKeys'
          epoch' ∧
      (share' : ZMod curve.n) = share +
        if replacesShare curve sha256 engine call.refresh then call.contribution threshold i
        else 0 := by
  intro engine
  have hreplaces : replacesShare curve sha256 engine call.refresh =
      (refreshedShare curve sha256 engine (.create share) call.refresh).isOk := rfl
  have hengine := @executeRefresh_engine _ _ _ curve sha256 engine (.create share) paillierKeys
    rfl rfl call.refresh
  rw [hreplaces, engineAfter, hengine]
  cases hvalue : refreshedShare curve sha256 engine (.create share) call.refresh with
  | error e => exact ⟨share, paillierKeys, epoch, rfl, by simp [Except.isOk, Except.toBool]⟩
  | ok value =>
    have hcast := refreshedShare_ok hvalue
    cases call.refresh.paillierKeys with
    | error e => exact ⟨value, paillierKeys, epoch, rfl, by simpa [Except.isOk, Except.toBool]⟩
    | ok newPaillierKeys =>
      exact ⟨value, newPaillierKeys, epoch + 1, rfl, by simpa [Except.isOk, Except.toBool]⟩

/-- **Any calls.** The share is the first one with the polynomials of the effective calls. -/
theorem history_share (i threshold totalParties : ℕ) (history : List (DrawnRefresh curve))
    (epoch : ℕ) (share : ℤ) (paillierKeys : PaillierKeyPair) :
    let engine := initializeEngine (nodeName i) threshold totalParties (.create share)
      paillierKeys epoch
    ∃ share' : ℤ,
      (run (engineAfter curve sha256) engine history).currentShare = some (.create share') ∧
      (share' : ZMod curve.n) = share +
        ((effective curve sha256 engine history).map (·.contribution threshold i)).sum := by
  induction history generalizing epoch share paillierKeys with
  | nil => exact ⟨share, rfl, by simp [effective]⟩
  | cons call history ih =>
    intro engine
    obtain ⟨share₁, keys₁, epoch₁, hengine, hcast₁⟩ :=
      @executeRefresh_share _ _ _ curve sha256 i threshold totalParties epoch share paillierKeys
        call
    obtain ⟨share₂, hshare₂, hcast₂⟩ := ih epoch₁ share₁ keys₁
    rw [← hengine] at hshare₂ hcast₂
    refine ⟨share₂, hshare₂, ?_⟩
    rw [hcast₂, hcast₁, effective]
    cases replacesShare curve sha256 engine call.refresh
    · simp [engine]
    · simp [engine, add_assoc]

/-! ## Several parties -/

/-- The weight of a party's share in the secret that a group combines to. -/
noncomputable def groupWeight (curve : Curve G) (positions : List ℕ) (i : ℕ) : ZMod curve.n :=
  zeroWeight positions.toFinset (Nat.cast : ℕ → ZMod curve.n) i

/-- **Histories.** Every party has made its own calls of `executeRefresh`, any number of them, at
any time and with any failures. The shares of any `t` parties combine to the old secret exactly
when the weighted sum of their effective polynomials, each at its party's index, is zero. -/
theorem refresh_history_iff {t n : ℕ} (hn : n < curve.n) {f : Polynomial (ZMod curve.n)}
    (hf : f.degree < t) {share : ℕ → ℤ}
    (hshare : ∀ i, 1 ≤ i → i ≤ n → (share i : ZMod curve.n) = f.eval (i : ZMod curve.n))
    (paillierKeys : ℕ → PaillierKeyPair) (epoch : ℕ → ℕ) (history : ℕ → List (DrawnRefresh curve))
    {positions : List ℕ} (hlen : positions.length = t) (hnodup : positions.Nodup)
    (hpos : ∀ i ∈ positions, 1 ≤ i ∧ i ≤ n) :
    let engine := fun i =>
      initializeEngine (nodeName i) t n (.create (share i)) (paillierKeys i) (epoch i)
    ∃ shares : List ℤ,
      positions.map (fun i => (run (engineAfter curve sha256) (engine i) (history i)).currentShare) =
        shares.map (fun share => some (.create share)) ∧
      (combineSignatures curve.CURVE_ORDER shares (positions.map Int.ofNat) =
          .ok ((f.eval 0).val : ℤ) ↔
        ∑ i ∈ positions.toFinset,
          ((effective curve sha256 (engine i) (history i)).map (·.contribution t i)).sum *
            groupWeight curve positions i = 0) := by
  intro engine
  choose newShare hnew hcast using fun i => @history_share _ _ _ curve sha256 i t n (history i)
    (epoch i) (share i) (paillierKeys i)
  have hlt : ∀ i ∈ positions, i < curve.n := fun i hi => (hpos i hi).2.trans_lt hn
  have hinj : Set.InjOn (Nat.cast : ℕ → ZMod curve.n) positions.toFinset := by
    rw [List.coe_toFinset]
    exact injOn_natCast hlt
  have hcard : positions.toFinset.card = t := by rw [List.toFinset_card_of_nodup hnodup, hlen]
  refine ⟨positions.map newShare, ?_, ?_⟩
  · rw [List.map_map]
    exact List.map_congr_left fun i _ => hnew i
  · have hsum : ∑ i ∈ positions.toFinset, (newShare i : ZMod curve.n) *
          groupWeight curve positions i =
        f.eval 0 + ∑ i ∈ positions.toFinset,
          ((effective curve sha256 (engine i) (history i)).map (·.contribution t i)).sum *
            groupWeight curve positions i := by
      rw [← sum_zeroWeight_mul hinj (by rwa [hcard]), ← Finset.sum_add_distrib]
      refine Finset.sum_congr rfl fun i hi => ?_
      have hi' := hpos i (by simpa using hi)
      rw [hcast i, hshare i hi'.1 hi'.2, add_mul]
      rfl
    rw [combineSignatures_positions hnodup hlt]
    simp only [groupWeight] at hsum ⊢
    rw [hsum, Except.ok.injEq, Nat.cast_inj, (ZMod.val_injective curve.n).eq_iff, add_eq_left]

end

/-- `node-1` refreshes twice, the second time without new Paillier keys; `node-2` does not. -/
def loneHistory (i : ℕ) : List (DrawnRefresh Curve.curve43) :=
  if i = 1 then
    [⟨twoPartyRun 1, fun _ => twoPartyCoefficient 1, rfl⟩,
      ⟨{ twoPartyRun 1 with paillierKeys := .error externalError },
        fun _ => twoPartyCoefficient 1, rfl⟩]
  else []

def loneEngine (i : ℕ) : KeyRefreshEngine :=
  initializeEngine (nodeName i) 2 2 (.create (twoPartyShare i)) (keyPairOf 7 11 18) 0

theorem refresh_history_iff_lone :
    (effective Curve.curve43 (fun _ => zeroDigest) (loneEngine 1) (loneHistory 1)).length = 2 ∧
    ∃ shares : List ℤ,
      [1, 2].map (fun i => (run (engineAfter Curve.curve43 fun _ => zeroDigest) (loneEngine i)
        (loneHistory i)).currentShare) = shares.map (fun share => some (.create share)) ∧
      (combineSignatures Curve.curve43.CURVE_ORDER shares ([1, 2].map Int.ofNat) =
          .ok (((ofCoeffs [7, 11] : Polynomial (ZMod Curve.curve43.n)).eval 0).val : ℤ) ↔
        ∑ i ∈ [1, 2].toFinset,
          ((effective Curve.curve43 (fun _ => zeroDigest) (loneEngine i) (loneHistory i)).map
              (·.contribution 2 i)).sum * groupWeight Curve.curve43 [1, 2] i = 0) := by
  refine ⟨by decide +kernel, refresh_history_iff (n := 2) (by decide)
    (degree_ofCoeffs_lt [7, 11]) (fun i hi hi₂ => ?_) (fun _ => keyPairOf 7 11 18) (fun _ => 0)
    loneHistory rfl (by decide) (by decide)⟩
  obtain rfl | rfl : i = 1 ∨ i = 2 := by omega
  · simp only [ofCoeffs_cons, ofCoeffs_nil, Polynomial.eval_add, Polynomial.eval_mul,
      Polynomial.eval_C, Polynomial.eval_X, Polynomial.eval_zero]
    decide
  · simp only [ofCoeffs_cons, ofCoeffs_nil, Polynomial.eval_add, Polynomial.eval_mul,
      Polynomial.eval_C, Polynomial.eval_X, Polynomial.eval_zero]
    decide

end BioFire.KeyRefresh
