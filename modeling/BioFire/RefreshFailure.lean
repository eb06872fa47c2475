import BioFire.RefreshRace

/-!
# Refreshes that fail (`src/lib/protocol/key_refresh_engine.ts`)

`executeRefresh` installs the new share and releases the old one before it generates the new
Paillier keys.

* `settled_unique`: a call that nothing interrupts settles in one way;
* `settlesFrom_of_error`: a call that fails before the swap leaves the engine alone;
* `settlesFrom_of_swap`: the failure behind it;
* `refresh_atomic_iff`: when a failed call leaves the engine unchanged.
-/

namespace BioFire.KeyRefresh

open Mpc Runs

section

variable {G : Type} [AddCommGroup G] [DecidableEq G] (curve : Curve G) (sha256 : Bytes → Digest)

/-- A call on the heap that nothing interrupts settles. -/
def SettlesFrom (heap : EngineHeap) (refresh : RefreshRun curve.CURVE_ORDER) (heap' : EngineHeap)
    (outcome : Except JSError RefreshResultRef) : Prop :=
  Reaches curve sha256 (startCall curve sha256 heap refresh).2.1
    ((startCall curve sha256 heap refresh).1, (startCall curve sha256 heap refresh).2.2)
    (heap', .settled outcome)

/-- The engine refers to the same share and keys, in the state in which they were. -/
structure Unchanged (heap heap' : EngineHeap) : Prop where
  currentShare : heap'.currentShare = heap.currentShare
  share : ∀ ref ∈ heap.currentShare, heap'.share ref = heap.share ref
  currentPaillier : heap'.currentPaillier = heap.currentPaillier
  keyPair : ∀ ref ∈ heap.currentPaillier, heap'.keyPair ref = heap.keyPair ref
  currentEpoch : heap'.currentEpoch = heap.currentEpoch

/-- A call that rejects leaves the engine unchanged. -/
def AtomicOnFailure (heap : EngineHeap) (refresh : RefreshRun curve.CURVE_ORDER) : Prop :=
  ∀ heap' e, SettlesFrom curve sha256 heap refresh heap' (.error e) → Unchanged heap heap'

/-- The new share is computed: the engine is initialized, coefficients and nonces are drawn, every
sub-share is packed and sent, and the current share is not released. -/
def ReachesSwap (heap : EngineHeap) (refresh : RefreshRun curve.CURVE_ORDER) : Prop :=
  ∃ oldShare oldPaillier polynomial packages value,
    heap.currentShare = some oldShare ∧ heap.currentPaillier = some oldPaillier ∧
    zeroPolynomial curve heap.threshold refresh.coefficient = .ok polynomial ∧
    sendSubShares curve sha256 heap.engine (heap.currentEpoch + 1) polynomial refresh
      refresh.connectedPeers.zipIdx = .ok packages ∧
    newShareValue curve heap.engine (polynomial.map Prod.fst)
      (collectSubShares heap.engine (heap.currentEpoch + 1) refresh.connectedPeers .empty
        []).1.values (heap.share oldShare) = .ok value

variable {curve sha256}

/-! ## One way to settle -/

theorem resumeAlone_settled (call : RefreshCall curve.CURVE_ORDER) (heap : EngineHeap)
    (outcome : Except JSError RefreshResultRef) (k : ℕ) :
    (resumeAlone curve sha256 call)^[k] (heap, .settled outcome) = (heap, .settled outcome) :=
  Function.iterate_fixed rfl k

theorem settled_unique {call : RefreshCall curve.CURVE_ORDER} {p : EngineHeap × Progress}
    {heap heap' : EngineHeap} {outcome outcome' : Except JSError RefreshResultRef}
    (h : Reaches curve sha256 call p (heap, .settled outcome))
    (h' : Reaches curve sha256 call p (heap', .settled outcome')) :
    heap' = heap ∧ outcome' = outcome := by
  obtain ⟨k, hk⟩ := h
  obtain ⟨k', hk'⟩ := h'
  have hsame : (heap', Progress.settled outcome') = (heap, Progress.settled outcome) := by
    calc (heap', Progress.settled outcome')
        = (resumeAlone curve sha256 call)^[k + k'] p := by
          rw [Function.iterate_add_apply, hk', resumeAlone_settled]
      _ = (heap, Progress.settled outcome) := by
          rw [add_comm, Function.iterate_add_apply, hk, resumeAlone_settled]
  obtain ⟨hheap, hprogress⟩ := Prod.mk.inj hsame
  exact ⟨hheap, Progress.settled.inj hprogress⟩

theorem Unchanged.refl (heap : EngineHeap) : Unchanged heap heap :=
  ⟨rfl, fun _ _ => rfl, rfl, fun _ _ => rfl, rfl⟩

/-! ## The two kinds of failures -/

variable {heap : EngineHeap} {refresh : RefreshRun curve.CURVE_ORDER}

/-- The call of an initialized engine whose coefficients are drawn. -/
theorem startCall_eq {oldShare oldPaillier : ℕ} {polynomial : List (ℤ × JSString)}
    (hshare : heap.currentShare = some oldShare)
    (hpaillier : heap.currentPaillier = some oldPaillier)
    (hpoly : zeroPolynomial curve heap.threshold refresh.coefficient = .ok polynomial) :
    startCall curve sha256 heap refresh =
      ((sendNext curve sha256 heap ⟨refresh, heap.currentEpoch + 1, polynomial⟩
          refresh.connectedPeers.zipIdx).1, ⟨refresh, heap.currentEpoch + 1, polynomial⟩,
        (sendNext curve sha256 heap ⟨refresh, heap.currentEpoch + 1, polynomial⟩
          refresh.connectedPeers.zipIdx).2) := by
  unfold startCall
  simp only [hshare, hpaillier, hpoly]

/-- A call that does not reach the swap fails and leaves the engine alone. -/
theorem settlesFrom_of_error (h : ¬ReachesSwap curve sha256 heap refresh) :
    ∃ e, SettlesFrom curve sha256 heap refresh heap (.error e) := by
  cases hshare : heap.currentShare with
  | none =>
    refine ⟨plainError (js "KeyRefreshEngine not initialized"), 0, ?_⟩
    unfold startCall
    simp only [hshare]
    rfl
  | some oldShare =>
    cases hpaillier : heap.currentPaillier with
    | none =>
      refine ⟨plainError (js "KeyRefreshEngine not initialized"), 0, ?_⟩
      unfold startCall
      simp only [hshare, hpaillier]
      rfl
    | some oldPaillier =>
      cases hpoly : zeroPolynomial curve heap.threshold refresh.coefficient with
      | error e =>
        refine ⟨e, 0, ?_⟩
        unfold startCall
        simp only [hshare, hpaillier, hpoly]
        rfl
      | ok polynomial =>
        have hphase₂ := @reaches_sendNext _ _ _ curve sha256
          ⟨refresh, heap.currentEpoch + 1, polynomial⟩ heap refresh.connectedPeers.zipIdx
        simp only [SettlesFrom, startCall_eq hshare hpaillier hpoly]
        cases hsend : sendSubShares curve sha256 heap.engine (heap.currentEpoch + 1) polynomial
            refresh refresh.connectedPeers.zipIdx with
        | error e =>
          rw [hsend] at hphase₂
          exact ⟨e, hphase₂⟩
        | ok packages =>
          rw [hsend] at hphase₂
          cases hvalue : newShareValue curve heap.engine (polynomial.map Prod.fst)
              (collectSubShares heap.engine (heap.currentEpoch + 1) refresh.connectedPeers .empty
                []).1.values (heap.share oldShare) with
          | error e =>
            refine ⟨e, hphase₂.trans ?_⟩
            rw [combineShares, hshare, hpaillier]
            dsimp only
            rw [hvalue]
            exact .refl _
          | ok value =>
            exact absurd ⟨oldShare, oldPaillier, polynomial, packages, value, hshare, hpaillier,
              hpoly, hsend, hvalue⟩ h

theorem isReleased_of_release (shares : List SecureBigInt) (ref : ℕ) :
    ((shares.modify ref SecureBigInt.release).getD ref ⟨none⟩).isReleased = true := by
  rw [List.getD_eq_getElem?_getD, List.getElem?_modify_eq]
  cases shares[ref]? with
  | none => rfl
  | some share => rfl

omit [DecidableEq G] in
theorem not_isReleased_of_newShareValue {engine : KeyRefreshEngine} {coeffs received : List ℤ}
    {share : SecureBigInt} {value : ℤ}
    (h : newShareValue curve engine coeffs received share = .ok value) :
    share.isReleased = false := by
  rw [newShareValue] at h
  obtain ⟨v, hv, -⟩ := bind_eq_ok h
  obtain ⟨_ | contents⟩ := share
  · cases hv
  · rfl

/-- Behind the swap the call fails with the generation of the keys, and the engine has a new
share; without that failure it succeeds. -/
theorem settlesFrom_of_swap (h : ReachesSwap curve sha256 heap refresh) :
    ∃ heap' outcome, SettlesFrom curve sha256 heap refresh heap' outcome ∧
      match refresh.paillierKeys with
      | .error e => outcome = .error e ∧ heap'.currentShare = some heap.shares.length ∧
        (∀ oldShare ∈ heap.currentShare, (heap'.share oldShare).isReleased = true)
      | .ok _ => ∃ result, outcome = .ok result := by
  obtain ⟨oldShare, oldPaillier, polynomial, packages, value, hshare, hpaillier, hpoly, hsend,
    hvalue⟩ := h
  have hphase₂ := @reaches_sendNext _ _ _ curve sha256
    ⟨refresh, heap.currentEpoch + 1, polynomial⟩ heap refresh.connectedPeers.zipIdx
  rw [hsend] at hphase₂
  dsimp only at hphase₂
  simp only [SettlesFrom, startCall_eq hshare hpaillier hpoly]
  rw [combineShares, hshare, hpaillier] at hphase₂
  dsimp only at hphase₂
  rw [hvalue] at hphase₂
  dsimp only at hphase₂
  cases hkeys : refresh.paillierKeys with
  | error e =>
    rw [hkeys] at hphase₂
    refine ⟨_, _, hphase₂, rfl, rfl, ?_⟩
    intro ref href
    rw [hshare, Option.mem_some_iff] at href
    subst href
    exact isReleased_of_release _ oldShare
  | ok keys =>
    rw [hkeys] at hphase₂
    exact ⟨_, _, hphase₂.trans (Reaches.head (.refl _)), _, rfl⟩

/-- **Atomic failures.** A failed call leaves the engine unchanged exactly when the new keys are
generated, or the call fails before it swaps the shares. -/
theorem refresh_atomic_iff (heap : EngineHeap) (refresh : RefreshRun curve.CURVE_ORDER) :
    AtomicOnFailure curve sha256 heap refresh ↔
      (ReachesSwap curve sha256 heap refresh → ∃ keys, refresh.paillierKeys = .ok keys) := by
  constructor
  · intro hatomic hswap
    obtain ⟨heap', outcome, hsettles, hcase⟩ := settlesFrom_of_swap hswap
    cases hkeys : refresh.paillierKeys with
    | error e =>
      rw [hkeys] at hcase
      obtain ⟨rfl, -, hreleased⟩ := hcase
      have hunchanged := hatomic heap' e hsettles
      obtain ⟨oldShare, _, _, _, value, hshare, -, -, -, hvalue⟩ := hswap
      have hold := hreleased oldShare hshare
      rw [hunchanged.share oldShare hshare, not_isReleased_of_newShareValue hvalue] at hold
      cases hold
    | ok keys => exact ⟨keys, rfl⟩
  · intro hkeys heap' e hsettles
    by_cases hswap : ReachesSwap curve sha256 heap refresh
    · obtain ⟨keys, hkeys⟩ := hkeys hswap
      obtain ⟨heap₁, outcome, hsettles₁, hcase⟩ := settlesFrom_of_swap hswap
      rw [hkeys] at hcase
      obtain ⟨result, rfl⟩ := hcase
      cases (settled_unique hsettles hsettles₁).2
    · obtain ⟨e', hsettles'⟩ := settlesFrom_of_error hswap
      rw [(settled_unique hsettles' hsettles).1]
      exact .refl heap

end

/-! ## A generator that throws -/

/-- `node-1` without peers; the last draw of random bytes throws. -/
def brokenRun : RefreshRun Curve.curve43.CURVE_ORDER where
  connectedPeers := []
  coefficient _ := .ok ⟨2, Curve.scalar_two⟩
  nonce _ := .ok ⟨3, Curve.scalar_three⟩
  send _ := .ok ()
  paillierKeys := .error ⟨.CSPRNGError,
    js "FATAL: CSPRNG (crypto.getRandomValues or crypto.randomBytes) is not available. " ++
      js "This environment is UNSAFE for cryptographic operations."⟩

def loneHeap : EngineHeap :=
  .ofEngine (initializeEngine (nodeName 1) 2 2 (.create 7) (keyPairOf 7 11 18) 4)

theorem reachesSwap_loneHeap :
    ReachesSwap Curve.curve43 (fun _ => zeroDigest) loneHeap brokenRun := by
  obtain ⟨polynomial, hpoly, hcoeffs⟩ : ∃ polynomial,
      zeroPolynomial Curve.curve43 loneHeap.threshold brokenRun.coefficient = .ok polynomial ∧
        polynomial.map Prod.fst = [2] := ⟨_, rfl, rfl⟩
  refine ⟨0, 0, polynomial, [], 9, rfl, rfl, hpoly, rfl, ?_⟩
  rw [hcoeffs]
  with_unfolding_all decide

/-- The call rejects, and the share 7 is gone. -/
theorem failed_refresh_releases_share :
    loneHeap.share 0 = .create 7 ∧ loneHeap.currentShare = some 0 ∧
      (∃ heap' e, SettlesFrom Curve.curve43 (fun _ => zeroDigest) loneHeap brokenRun heap'
          (.error e) ∧ (heap'.share 0).isReleased = true ∧ heap'.currentShare = some 1) ∧
      ¬AtomicOnFailure Curve.curve43 (fun _ => zeroDigest) loneHeap brokenRun := by
  obtain ⟨heap', outcome, hsettles, rfl, hnew, hreleased⟩ := settlesFrom_of_swap reachesSwap_loneHeap
  refine ⟨rfl, rfl, ⟨heap', _, hsettles, hreleased 0 rfl, hnew⟩, fun hatomic => ?_⟩
  have hsame := (hatomic heap' _ hsettles).currentShare
  rw [hnew] at hsame
  cases hsame

end BioFire.KeyRefresh
