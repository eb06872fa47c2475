import BioFire.KeyRefresh
import BioFire.LostUpdate

/-!
# Overlapping refreshes (`src/lib/protocol/key_refresh_engine.ts`)

`executeRefresh` reads the epoch before its awaits and writes it after the last one, and nothing
keeps a second call from starting in between. Here each call goes from one `await` to the next,
and the calls of one engine are resumed in any order. The engine and the results refer to shares
and key pairs on a heap, since a call may release what another one has returned.

* `uninterrupted`: a call that nothing interrupts is `executeRefresh`;
* `no_lost_refresh_iff`: no refresh is lost exactly when every call that succeeds finds the epoch
  that it started from;
* `no_lost_refresh_of_sequential`: this is so when no call starts before the others have settled.
-/

namespace BioFire.KeyRefresh

open Mpc Runs

/-- An engine with the shares and key pairs that it and its results refer to. -/
structure EngineHeap where
  nodeId : JSString
  threshold : ℕ
  totalParties : ℕ
  shares : List SecureBigInt
  keyPairs : List PaillierKeyPair
  currentShare : Option ℕ
  currentPaillier : Option ℕ
  currentEpoch : ℕ

namespace EngineHeap

def share (heap : EngineHeap) (ref : ℕ) : SecureBigInt := heap.shares.getD ref ⟨none⟩

def zeroKeyPair : PaillierKeyPair := ⟨⟨0, 0, 0⟩, ⟨0, 0, 0, 0⟩⟩

def keyPair (heap : EngineHeap) (ref : ℕ) : PaillierKeyPair := heap.keyPairs.getD ref zeroKeyPair

/-- The engine with the values that it refers to. -/
def engine (heap : EngineHeap) : KeyRefreshEngine where
  nodeId := heap.nodeId
  threshold := heap.threshold
  totalParties := heap.totalParties
  currentShare := heap.currentShare.map heap.share
  currentPaillier := heap.currentPaillier.map heap.keyPair
  currentEpoch := heap.currentEpoch

/-- The heap of an engine that nothing else refers to. -/
def ofEngine (engine : KeyRefreshEngine) : EngineHeap where
  nodeId := engine.nodeId
  threshold := engine.threshold
  totalParties := engine.totalParties
  shares := engine.currentShare.toList
  keyPairs := engine.currentPaillier.toList
  currentShare := engine.currentShare.map fun _ => 0
  currentPaillier := engine.currentPaillier.map fun _ => 0
  currentEpoch := engine.currentEpoch

end EngineHeap

/-- A `RefreshResult` that refers to its share and key pair. -/
structure RefreshResultRef where
  success : Bool
  newEpoch : ℕ
  newShare : ℕ
  newPaillierKeys : ℕ
  masterPublicKeyUnchanged : Bool
  zeroizedOldShare : Bool
  faultyNodes : List JSString

def RefreshResultRef.read (heap : EngineHeap) (result : RefreshResultRef) : RefreshResult where
  success := result.success
  newEpoch := result.newEpoch
  newShare := heap.share result.newShare
  newPaillierKeys := heap.keyPair result.newPaillierKeys
  masterPublicKeyUnchanged := result.masterPublicKeyUnchanged
  zeroizedOldShare := result.zeroizedOldShare
  faultyNodes := result.faultyNodes

/-- What a call has set before its first `await`. -/
structure RefreshCall (q : ℤ) where
  run : RefreshRun q
  newEpoch : ℕ
  polynomial : List (ℤ × JSString)

/-- The `await` at which a call stands. -/
inductive Progress
  | sending (k : ℕ) (rest : List (JSString × ℕ))
  | receiving (peerId : JSString) (promise : Except JSError (Option ℤ)) (rest : List JSString)
      (received : InsertionMap JSString ℤ) (faultyNodes : List JSString)
  | verifying (oldShare newShare oldPaillier newPaillierKeys : ℕ) (promise : Bool)
      (faultyNodes : List JSString)
  | settled (outcome : Except JSError RefreshResultRef)

section

variable {G : Type} [AddCommGroup G] [DecidableEq G] (curve : Curve G) (sha256 : Bytes → Digest)

/-- Phases 4 to 6, up to the check of the master public key. -/
def combineShares (heap : EngineHeap) (call : RefreshCall curve.CURVE_ORDER)
    (received : InsertionMap JSString ℤ) (faultyNodes : List JSString) : EngineHeap × Progress :=
  match heap.currentShare, heap.currentPaillier with
  | some oldShare, some oldPaillier =>
    match newShareValue curve heap.engine (call.polynomial.map Prod.fst) received.values
      (heap.share oldShare) with
    | .error e => (heap, .settled (.error e))
    | .ok value =>
      let newShare := heap.shares.length
      let heap := { heap with
        shares := (heap.shares ++ [SecureBigInt.create value]).modify oldShare SecureBigInt.release
        currentShare := some newShare }
      match call.run.paillierKeys with
      | .error e => (heap, .settled (.error e))
      | .ok keys =>
        let newPaillierKeys := heap.keyPairs.length
        let heap := { heap with
          keyPairs := heap.keyPairs ++ [keys]
          currentPaillier := some newPaillierKeys }
        (heap, .verifying oldShare newShare oldPaillier newPaillierKeys
          (verifyMasterPublicKeyInvariant heap.engine) faultyNodes)
  -- not reached: both were there when the call started, and nothing takes them away
  | _, _ => (heap, .settled (.error
      ⟨.TypeError, js "Cannot read properties of null (reading 'value')"⟩))

/-- The loop of phase 3 up to its next `await`. -/
def receiveNext (heap : EngineHeap) (call : RefreshCall curve.CURVE_ORDER)
    (peerIds : List JSString) (received : InsertionMap JSString ℤ) (faultyNodes : List JSString) :
    EngineHeap × Progress :=
  match peerIds with
  | [] => combineShares curve heap call received faultyNodes
  | peerId :: rest =>
    (heap, .receiving peerId (receiveSubShare heap.engine peerId call.newEpoch) rest received
      faultyNodes)

/-- The loop of phase 2 up to its next `await`. -/
def sendNext (heap : EngineHeap) (call : RefreshCall curve.CURVE_ORDER) :
    List (JSString × ℕ) → EngineHeap × Progress
  | [] => receiveNext curve heap call call.run.connectedPeers .empty []
  | (peerId, k) :: rest =>
    if getPeerIndex peerId = .ofInt (-1) then sendNext heap call rest
    else
      let serialized := do
        let pkg ← subSharePackage curve sha256 heap.engine call.newEpoch call.polynomial peerId
          (call.run.nonce k)
        BinarySerializer.pack sha256 (js "KEY_REFRESH_SUBSHARE") (packageRecord pkg)
      match serialized with
      | .error e => (heap, .settled (.error e))
      | .ok _ => (heap, .sending k rest)

/-- The call up to its first `await`. -/
def startCall (heap : EngineHeap) (run : RefreshRun curve.CURVE_ORDER) :
    EngineHeap × RefreshCall curve.CURVE_ORDER × Progress :=
  let newEpoch := heap.currentEpoch + 1
  match heap.currentShare, heap.currentPaillier with
  | some _, some _ =>
    match zeroPolynomial curve heap.threshold run.coefficient with
    | .error e => (heap, ⟨run, newEpoch, []⟩, .settled (.error e))
    | .ok polynomial =>
      let call : RefreshCall curve.CURVE_ORDER := ⟨run, newEpoch, polynomial⟩
      let (heap, progress) := sendNext curve sha256 heap call run.connectedPeers.zipIdx
      (heap, call, progress)
  | _, _ => (heap, ⟨run, newEpoch, []⟩,
      .settled (.error (plainError (js "KeyRefreshEngine not initialized"))))

def zeroPrivateKey (keyPair : PaillierKeyPair) : PaillierKeyPair :=
  { keyPair with privateKey := ⟨0, 0, 0, 0⟩ }

/-- The call from one `await` to the next one. -/
def continueCall (heap : EngineHeap) (call : RefreshCall curve.CURVE_ORDER) :
    Progress → EngineHeap × Progress
  | .sending k rest =>
    match call.run.send k with
    | .error e => (heap, .settled (.error e))
    | .ok () => sendNext curve sha256 heap call rest
  | .receiving peerId promise rest received faultyNodes =>
    match promise with
    | .error _ => receiveNext curve heap call rest received (faultyNodes ++ [peerId])
    | .ok none => receiveNext curve heap call rest received faultyNodes
    | .ok (some subShare) =>
      receiveNext curve heap call rest (received.set peerId subShare) faultyNodes
  | .verifying oldShare newShare oldPaillier newPaillierKeys masterPublicKeyUnchanged faultyNodes =>
    ({ heap with
        currentEpoch := call.newEpoch
        keyPairs := heap.keyPairs.modify oldPaillier zeroPrivateKey },
      .settled (.ok {
        success := true
        newEpoch := call.newEpoch
        newShare
        newPaillierKeys
        masterPublicKeyUnchanged
        zeroizedOldShare := (heap.share oldShare).isReleased
        faultyNodes }))
  | .settled outcome => (heap, .settled outcome)

/-! ## All calls of an engine -/

structure RefreshSystem (q : ℤ) where
  heap : EngineHeap
  calls : List (RefreshCall q × Progress)

/-- `executeRefresh` is called, or a promise that a call awaits is settled. -/
inductive RefreshEvent (q : ℤ)
  | start (run : RefreshRun q)
  | resume (k : ℕ)

def refreshStep (s : RefreshSystem curve.CURVE_ORDER) :
    RefreshEvent curve.CURVE_ORDER → RefreshSystem curve.CURVE_ORDER
  | .start run =>
    let (heap, call, progress) := startCall curve sha256 s.heap run
    ⟨heap, s.calls ++ [(call, progress)]⟩
  | .resume k =>
    match s.calls[k]? with
    | none => s
    | some (call, progress) =>
      let (heap, progress) := continueCall curve sha256 s.heap call progress
      ⟨heap, s.calls.set k (call, progress)⟩

end

def initialSystem (q : ℤ) (engine : KeyRefreshEngine) : RefreshSystem q := ⟨.ofEngine engine, []⟩

def Progress.isSettled : Progress → Bool
  | .settled _ => true
  | _ => false

def Progress.isVerifying : Progress → Bool
  | .verifying .. => true
  | _ => false

/-- The epoch that a call has returned with success. -/
def Progress.returnedEpoch : Progress → Option ℕ
  | .settled (.ok result) => if result.success then some result.newEpoch else none
  | _ => none

namespace RefreshSystem

variable {q : ℤ}

def allSettled (s : RefreshSystem q) : Bool := s.calls.all fun c => c.2.isSettled

def returnedEpochs (s : RefreshSystem q) : List ℕ := s.calls.filterMap fun c => c.2.returnedEpoch

/-- The epoch has grown by one for each call that returned success, and these calls returned
different epochs. -/
def NoLostRefresh (initialEpoch : ℕ) (s : RefreshSystem q) : Prop :=
  s.heap.currentEpoch = initialEpoch + s.returnedEpochs.length ∧ s.returnedEpochs.Nodup

/-- The epoch that a call is about to write and return. -/
def writesEpoch (s : RefreshSystem q) : RefreshEvent q → Option ℕ
  | .start _ => none
  | .resume k =>
    match s.calls[k]? with
    | some (call, progress) => if progress.isVerifying then some call.newEpoch else none
    | none => none

/-- A call that is about to succeed finds the epoch that it read when it started. -/
def FindsOwnEpoch (s : RefreshSystem q) (event : RefreshEvent q) : Prop :=
  ∀ newEpoch, s.writesEpoch event = some newEpoch → newEpoch = s.heap.currentEpoch + 1

/-- A call under way is going to write this epoch. -/
def Pending (s : RefreshSystem q) (newEpoch : ℕ) : Prop :=
  ∃ c ∈ s.calls, c.2.isSettled = false ∧ c.1.newEpoch = newEpoch

end RefreshSystem

/-! ## What one event does -/

/-- The kinds of events. Only the last one changes the epoch. -/
inductive StepKind {q : ℤ} (s : RefreshSystem q) : RefreshEvent q → RefreshSystem q → Prop
  | start {run heap call progress} (hepoch : heap.currentEpoch = s.heap.currentEpoch)
      (hnew : call.newEpoch = s.heap.currentEpoch + 1) (hreturned : progress.returnedEpoch = none) :
      StepKind s (.start run) ⟨heap, s.calls ++ [(call, progress)]⟩
  | unknown {k} (hk : s.calls[k]? = none) : StepKind s (.resume k) s
  | resume {k heap call progress progress'} (hk : s.calls[k]? = some (call, progress))
      (hwrites : s.writesEpoch (.resume k) = none)
      (hepoch : heap.currentEpoch = s.heap.currentEpoch)
      (hreturned : progress'.returnedEpoch = progress.returnedEpoch)
      (hsettled : progress.isSettled = true → progress'.isSettled = true) :
      StepKind s (.resume k) ⟨heap, s.calls.set k (call, progress')⟩
  | succeed {k heap call progress progress'} (hk : s.calls[k]? = some (call, progress))
      (hwrites : s.writesEpoch (.resume k) = some call.newEpoch)
      (hepoch : heap.currentEpoch = call.newEpoch) (hpending : progress.isSettled = false)
      (hnone : progress.returnedEpoch = none)
      (hreturned : progress'.returnedEpoch = some call.newEpoch)
      (hsettled : progress'.isSettled = true) :
      StepKind s (.resume k) ⟨heap, s.calls.set k (call, progress')⟩

section

variable {G : Type} [AddCommGroup G] {curve : Curve G}

theorem combineShares_quiet (heap : EngineHeap) (call : RefreshCall curve.CURVE_ORDER)
    (received : InsertionMap JSString ℤ) (faultyNodes : List JSString) :
    (combineShares curve heap call received faultyNodes).1.currentEpoch = heap.currentEpoch ∧
      (combineShares curve heap call received faultyNodes).2.returnedEpoch = none := by
  unfold combineShares
  split
  · split
    · exact ⟨rfl, rfl⟩
    · dsimp only
      split
      · exact ⟨rfl, rfl⟩
      · exact ⟨rfl, rfl⟩
  · exact ⟨rfl, rfl⟩

theorem receiveNext_quiet (heap : EngineHeap) (call : RefreshCall curve.CURVE_ORDER)
    (peerIds : List JSString) (received : InsertionMap JSString ℤ) (faultyNodes : List JSString) :
    (receiveNext curve heap call peerIds received faultyNodes).1.currentEpoch = heap.currentEpoch ∧
      (receiveNext curve heap call peerIds received faultyNodes).2.returnedEpoch = none := by
  cases peerIds with
  | nil => exact combineShares_quiet heap call received faultyNodes
  | cons peerId rest => exact ⟨rfl, rfl⟩

variable [DecidableEq G] (sha256 : Bytes → Digest)

theorem sendNext_quiet (heap : EngineHeap) (call : RefreshCall curve.CURVE_ORDER)
    (peers : List (JSString × ℕ)) :
    (sendNext curve sha256 heap call peers).1.currentEpoch = heap.currentEpoch ∧
      (sendNext curve sha256 heap call peers).2.returnedEpoch = none := by
  induction peers with
  | nil => exact receiveNext_quiet heap call _ _ _
  | cons peer peers ih =>
    unfold sendNext
    split
    · exact ih
    · dsimp only
      split
      · exact ⟨rfl, rfl⟩
      · exact ⟨rfl, rfl⟩

theorem startCall_spec (heap : EngineHeap) (run : RefreshRun curve.CURVE_ORDER) :
    (startCall curve sha256 heap run).1.currentEpoch = heap.currentEpoch ∧
      (startCall curve sha256 heap run).2.1.newEpoch = heap.currentEpoch + 1 ∧
      (startCall curve sha256 heap run).2.2.returnedEpoch = none := by
  unfold startCall
  dsimp only
  split
  · split
    · exact ⟨rfl, rfl, rfl⟩
    next polynomial _ =>
      obtain ⟨hepoch, hreturned⟩ := sendNext_quiet sha256 heap
        ⟨run, heap.currentEpoch + 1, polynomial⟩ run.connectedPeers.zipIdx
      exact ⟨hepoch, rfl, hreturned⟩
  · exact ⟨rfl, rfl, rfl⟩

theorem continueCall_quiet (heap : EngineHeap) (call : RefreshCall curve.CURVE_ORDER)
    {progress : Progress} (h : progress.isVerifying = false) :
    (continueCall curve sha256 heap call progress).1.currentEpoch = heap.currentEpoch ∧
      (continueCall curve sha256 heap call progress).2.returnedEpoch = progress.returnedEpoch ∧
      (progress.isSettled = true →
        (continueCall curve sha256 heap call progress).2.isSettled = true) := by
  cases progress with
  | sending k rest =>
    unfold continueCall
    dsimp only
    split
    · exact ⟨rfl, rfl, fun _ => rfl⟩
    · obtain ⟨hepoch, hreturned⟩ := sendNext_quiet sha256 heap call rest
      exact ⟨hepoch, hreturned, fun hsettled => by cases hsettled⟩
  | receiving peerId promise rest received faultyNodes =>
    have hnext : ∀ received faultyNodes, _ := receiveNext_quiet heap call rest
    unfold continueCall
    dsimp only
    split
    · exact ⟨(hnext _ _).1, (hnext _ _).2, fun hsettled => by cases hsettled⟩
    · exact ⟨(hnext _ _).1, (hnext _ _).2, fun hsettled => by cases hsettled⟩
    · exact ⟨(hnext _ _).1, (hnext _ _).2, fun hsettled => by cases hsettled⟩
  | verifying => cases h
  | settled outcome => exact ⟨rfl, rfl, id⟩

theorem refreshStep_resume {s : RefreshSystem curve.CURVE_ORDER} {k : ℕ}
    {call : RefreshCall curve.CURVE_ORDER} {progress : Progress}
    (hk : s.calls[k]? = some (call, progress)) :
    refreshStep curve sha256 s (.resume k) =
      ⟨(continueCall curve sha256 s.heap call progress).1,
        s.calls.set k (call, (continueCall curve sha256 s.heap call progress).2)⟩ := by
  unfold refreshStep
  dsimp only
  rw [hk]

/-- **One event** is of one of the kinds. -/
theorem stepKind (s : RefreshSystem curve.CURVE_ORDER) (event : RefreshEvent curve.CURVE_ORDER) :
    StepKind s event (refreshStep curve sha256 s event) := by
  cases event with
  | start run =>
    obtain ⟨hepoch, hnew, hreturned⟩ := startCall_spec sha256 s.heap run
    exact .start hepoch hnew hreturned
  | resume k =>
    cases hk : s.calls[k]? with
    | none =>
      have hstep : refreshStep curve sha256 s (.resume k) = s := by
        unfold refreshStep
        dsimp only
        rw [hk]
      rw [hstep]
      exact .unknown hk
    | some c =>
      obtain ⟨call, progress⟩ := c
      rw [refreshStep_resume sha256 hk]
      cases hverifying : progress.isVerifying with
      | false =>
        obtain ⟨hepoch, hreturned, hsettled⟩ := continueCall_quiet sha256 s.heap call hverifying
        apply StepKind.resume hk _ hepoch hreturned hsettled
        simp [RefreshSystem.writesEpoch, hk, hverifying]
      | true =>
        cases progress with
        | verifying =>
          apply StepKind.succeed hk _ rfl rfl rfl rfl rfl
          simp [RefreshSystem.writesEpoch, hk, hverifying]
        | _ => cases hverifying

end

/-! ## A call that nothing interrupts -/

def Progress.outcome (heap : EngineHeap) : Progress → Option (Except JSError RefreshResult)
  | .settled outcome => some (outcome.map (RefreshResultRef.read heap))
  | _ => none

section

variable {G : Type} [AddCommGroup G] [DecidableEq G] (curve : Curve G) (sha256 : Bytes → Digest)
  (call : RefreshCall curve.CURVE_ORDER)

def resumeAlone (p : EngineHeap × Progress) : EngineHeap × Progress :=
  continueCall curve sha256 p.1 call p.2

/-- Some number of resumptions leads from `p` to `p'`. -/
def Reaches (p p' : EngineHeap × Progress) : Prop := ∃ k, (resumeAlone curve sha256 call)^[k] p = p'

variable {curve sha256 call}

theorem Reaches.refl (p : EngineHeap × Progress) : Reaches curve sha256 call p p := ⟨0, rfl⟩

theorem Reaches.head {p p' : EngineHeap × Progress}
    (h : Reaches curve sha256 call (resumeAlone curve sha256 call p) p') :
    Reaches curve sha256 call p p' := by
  obtain ⟨k, hk⟩ := h
  exact ⟨k + 1, hk⟩

theorem Reaches.trans {p p' p'' : EngineHeap × Progress} (h : Reaches curve sha256 call p p')
    (h' : Reaches curve sha256 call p' p'') : Reaches curve sha256 call p p'' := by
  obtain ⟨k, rfl⟩ := h
  obtain ⟨j, rfl⟩ := h'
  exact ⟨j + k, Function.iterate_add_apply _ j k p⟩

theorem reaches_receiveNext (heap : EngineHeap) (peerIds : List JSString)
    (received : InsertionMap JSString ℤ) (faultyNodes : List JSString) :
    Reaches curve sha256 call (receiveNext curve heap call peerIds received faultyNodes)
      (combineShares curve heap call
        (collectSubShares heap.engine call.newEpoch peerIds received faultyNodes).1
        (collectSubShares heap.engine call.newEpoch peerIds received faultyNodes).2) := by
  induction peerIds generalizing received faultyNodes with
  | nil => exact .refl _
  | cons peerId rest ih =>
    apply Reaches.head
    unfold receiveNext resumeAlone continueCall collectSubShares
    dsimp only
    rcases receiveSubShare heap.engine peerId call.newEpoch with e | _ | subShare
    · exact ih _ _
    · exact ih _ _
    · exact ih _ _

/-- Phase 2 ends with the error of the loop, or leads to phase 4. -/
theorem reaches_sendNext (heap : EngineHeap) (peers : List (JSString × ℕ)) :
    match sendSubShares curve sha256 heap.engine call.newEpoch call.polynomial call.run peers with
    | .error e => Reaches curve sha256 call (sendNext curve sha256 heap call peers)
        (heap, .settled (.error e))
    | .ok _ => Reaches curve sha256 call (sendNext curve sha256 heap call peers)
        (combineShares curve heap call
          (collectSubShares heap.engine call.newEpoch call.run.connectedPeers .empty []).1
          (collectSubShares heap.engine call.newEpoch call.run.connectedPeers .empty []).2) := by
  induction peers with
  | nil => exact reaches_receiveNext heap _ _ _
  | cons peer peers ih =>
    obtain ⟨peerId, k⟩ := peer
    unfold sendSubShares sendNext
    split_ifs
    · exact ih
    · cases hpkg : subSharePackage curve sha256 heap.engine call.newEpoch call.polynomial peerId
        (call.run.nonce k) with
      | error e => exact .refl _
      | ok pkg =>
        cases hpack : BinarySerializer.pack sha256 (js "KEY_REFRESH_SUBSHARE")
            (packageRecord pkg) with
        | error e =>
          simp only [bind, Except.bind, hpack]
          exact .refl _
        | ok serialized =>
          simp only [bind, Except.bind, hpack]
          cases hsend : call.run.send k with
          | error e =>
            apply Reaches.head
            unfold resumeAlone continueCall
            simp only [hsend]
            exact .refl _
          | ok _ =>
            have hnext : resumeAlone curve sha256 call (heap, .sending k peers) =
                sendNext curve sha256 heap call peers := by
              unfold resumeAlone continueCall
              simp only [hsend]
            cases hrest : sendSubShares curve sha256 heap.engine call.newEpoch call.polynomial
                call.run peers with
            | error e =>
              rw [hrest] at ih
              apply Reaches.head
              rw [hnext]
              exact ih
            | ok packages =>
              rw [hrest] at ih
              apply Reaches.head
              rw [hnext]
              exact ih

theorem engine_ofEngine (engine : KeyRefreshEngine) :
    (EngineHeap.ofEngine engine).engine = engine := by
  obtain ⟨nodeId, threshold, totalParties, _ | share, _ | keys, epoch⟩ := engine
  · rfl
  · rfl
  · rfl
  · rfl

omit [DecidableEq G] in
/-- Phases 4 to 6 on the heap of an engine to which nothing else refers. -/
theorem combineShares_ofEngine {engine : KeyRefreshEngine} {share : SecureBigInt}
    {keys : PaillierKeyPair} (hshare : engine.currentShare = some share)
    (hkeys : engine.currentPaillier = some keys) (received : InsertionMap JSString ℤ)
    (faultyNodes : List JSString) :
    combineShares curve (.ofEngine engine) call received faultyNodes =
      match newShareValue curve engine (call.polynomial.map Prod.fst) received.values share with
      | .error e => (.ofEngine engine, .settled (.error e))
      | .ok value =>
        let heap := { EngineHeap.ofEngine engine with
          shares := [share.release, .create value]
          currentShare := some 1 }
        match call.run.paillierKeys with
        | .error e => (heap, .settled (.error e))
        | .ok newPaillierKeys =>
          ({ heap with keyPairs := [keys, newPaillierKeys], currentPaillier := some 1 },
            .verifying 0 1 0 1 true faultyNodes) := by
  obtain ⟨nodeId, threshold, totalParties, _, _, epoch⟩ := engine
  subst hshare hkeys
  rfl

theorem reaches_settled {engine : KeyRefreshEngine} {share : SecureBigInt} {keys : PaillierKeyPair}
    (hshare : engine.currentShare = some share) (hkeys : engine.currentPaillier = some keys)
    (hnew : call.newEpoch = engine.currentEpoch + 1)
    (hpoly : zeroPolynomial curve engine.threshold call.run.coefficient = .ok call.polynomial)
    {packages : List SubSharePackage}
    (hsend : sendSubShares curve sha256 engine call.newEpoch call.polynomial call.run
      call.run.connectedPeers.zipIdx = .ok packages) :
    ∃ heap outcome, Reaches curve sha256 call (combineShares curve (.ofEngine engine) call
        (collectSubShares engine call.newEpoch call.run.connectedPeers .empty []).1
        (collectSubShares engine call.newEpoch call.run.connectedPeers .empty []).2)
        (heap, .settled outcome) ∧
      (heap.engine, outcome.map (RefreshResultRef.read heap)) =
        executeRefresh curve sha256 engine call.run := by
  rw [combineShares_ofEngine hshare hkeys]
  unfold executeRefresh
  rw [hnew] at hsend ⊢
  simp only [hshare, hkeys, hpoly, bind, Except.bind, hsend, pure, Except.pure]
  cases newShareValue curve engine (call.polynomial.map Prod.fst)
    (collectSubShares engine (engine.currentEpoch + 1) call.run.connectedPeers .empty []).1.values
      share with
  | error e =>
    refine ⟨.ofEngine engine, .error e, .refl _, ?_⟩
    rw [engine_ofEngine]
    rfl
  | ok value =>
    cases call.run.paillierKeys with
    | error e =>
      refine ⟨_, .error e, .refl _, ?_⟩
      obtain ⟨nodeId, threshold, totalParties, _, _, epoch⟩ := engine
      subst hshare hkeys
      rfl
    | ok newPaillierKeys =>
      refine ⟨_, _, Reaches.head (.refl _), ?_⟩
      obtain ⟨nodeId, threshold, totalParties, _, _, epoch⟩ := engine
      subst hshare hkeys
      simp only [hnew]
      rfl

theorem run_resume (k : ℕ) (p : EngineHeap × Progress) :
    run (refreshStep curve sha256) ⟨p.1, [(call, p.2)]⟩ (List.replicate k (.resume 0)) =
      ⟨((resumeAlone curve sha256 call)^[k] p).1,
        [(call, ((resumeAlone curve sha256 call)^[k] p).2)]⟩ := by
  induction k generalizing p with
  | zero => rfl
  | succ k ih => exact ih (resumeAlone curve sha256 call p)

variable (curve sha256) in
/-- A call that nothing interrupts settles, with this engine and this outcome. -/
def SettlesAlone (engine : KeyRefreshEngine) (refresh : RefreshRun curve.CURVE_ORDER)
    (target : KeyRefreshEngine × Except JSError RefreshResult) : Prop :=
  ∃ k heap call outcome,
    run (refreshStep curve sha256) (initialSystem curve.CURVE_ORDER engine)
        (.start refresh :: List.replicate k (.resume 0)) = ⟨heap, [(call, .settled outcome)]⟩ ∧
      (heap.engine, outcome.map (RefreshResultRef.read heap)) = target

theorem settlesAlone_of_reaches {engine : KeyRefreshEngine} {refresh : RefreshRun curve.CURVE_ORDER}
    {heap heap' : EngineHeap} {progress : Progress} {outcome : Except JSError RefreshResultRef}
    (hstart : startCall curve sha256 (.ofEngine engine) refresh = (heap, call, progress))
    (h : Reaches curve sha256 call (heap, progress) (heap', .settled outcome)) :
    SettlesAlone curve sha256 engine refresh
      (heap'.engine, outcome.map (RefreshResultRef.read heap')) := by
  obtain ⟨k, hk⟩ := h
  have hfirst : refreshStep curve sha256 (initialSystem curve.CURVE_ORDER engine)
      (.start refresh) = ⟨heap, [(call, progress)]⟩ := by
    unfold refreshStep initialSystem
    simp only [hstart, List.nil_append]
  have hrest := @run_resume _ _ _ curve sha256 call k (heap, progress)
  rw [← hfirst, hk] at hrest
  exact ⟨k, heap', call, outcome, hrest, rfl⟩

theorem settlesAlone_of_error {engine : KeyRefreshEngine} {refresh : RefreshRun curve.CURVE_ORDER}
    {heap : EngineHeap} {progress : Progress} {e : JSError}
    (hstart : startCall curve sha256 (.ofEngine engine) refresh = (heap, call, progress))
    (h : Reaches curve sha256 call (heap, progress) (.ofEngine engine, .settled (.error e))) :
    SettlesAlone curve sha256 engine refresh (engine, .error e) := by
  have hsettles := settlesAlone_of_reaches hstart h
  rw [engine_ofEngine] at hsettles
  exact hsettles

/-- **A call that nothing interrupts** settles, and does what `executeRefresh` does. -/
theorem uninterrupted (engine : KeyRefreshEngine) (refresh : RefreshRun curve.CURVE_ORDER) :
    SettlesAlone curve sha256 engine refresh (executeRefresh curve sha256 engine refresh) := by
  obtain ⟨nodeId, threshold, totalParties, _ | share, _ | keys, epoch⟩ := engine
  · exact settlesAlone_of_error rfl (.refl _)
  · exact settlesAlone_of_error rfl (.refl _)
  · exact settlesAlone_of_error rfl (.refl _)
  · cases hpoly : zeroPolynomial curve threshold refresh.coefficient with
    | error e =>
      unfold executeRefresh
      simp only [hpoly]
      apply settlesAlone_of_error _ (.refl _)
      · exact ⟨refresh, epoch + 1, []⟩
      · unfold startCall EngineHeap.ofEngine
        simp only [hpoly]
        rfl
    | ok polynomial =>
      let engine : KeyRefreshEngine :=
        ⟨nodeId, threshold, totalParties, some share, some keys, epoch⟩
      let call : RefreshCall curve.CURVE_ORDER := ⟨refresh, epoch + 1, polynomial⟩
      let first := sendNext curve sha256 (.ofEngine engine) call refresh.connectedPeers.zipIdx
      have hstart : startCall curve sha256 (.ofEngine engine) refresh =
          (first.1, call, first.2) := by
        unfold startCall EngineHeap.ofEngine
        simp only [engine, hpoly]
        rfl
      have hphase₂ := @reaches_sendNext _ _ _ curve sha256 call (.ofEngine engine)
        refresh.connectedPeers.zipIdx
      rw [engine_ofEngine] at hphase₂
      cases hsend : sendSubShares curve sha256 engine call.newEpoch call.polynomial call.run
          refresh.connectedPeers.zipIdx with
      | error e =>
        rw [hsend] at hphase₂
        have hexecute : executeRefresh curve sha256 engine refresh = (engine, .error e) := by
          unfold executeRefresh
          simp only [engine, hpoly, bind, Except.bind]
          rw [hsend]
        rw [hexecute]
        exact settlesAlone_of_error hstart hphase₂
      | ok packages =>
        rw [hsend] at hphase₂
        obtain ⟨heap, outcome, hphase₄, hsame⟩ := reaches_settled rfl rfl rfl hpoly hsend
        have hsettles := settlesAlone_of_reaches hstart (hphase₂.trans hphase₄)
        rw [hsame] at hsettles
        exact hsettles

end

/-! ## The epoch as a counter -/

namespace StepKind

variable {q : ℤ} {s s' : RefreshSystem q} {event : RefreshEvent q}

theorem currentEpoch_of_none (h : StepKind s event s') (hw : s.writesEpoch event = none) :
    s'.heap.currentEpoch = s.heap.currentEpoch := by
  cases h with
  | start hepoch => exact hepoch
  | unknown => rfl
  | resume _ _ hepoch => exact hepoch
  | succeed _ hwrites =>
    rw [hwrites] at hw
    cases hw

theorem returnedEpochs_of_none (h : StepKind s event s') (hw : s.writesEpoch event = none) :
    s'.returnedEpochs = s.returnedEpochs := by
  cases h with
  | start _ _ hreturned => simp [RefreshSystem.returnedEpochs, hreturned]
  | unknown => rfl
  | resume hk _ _ hreturned => exact filterMap_set_eq hk hreturned
  | succeed _ hwrites =>
    rw [hwrites] at hw
    cases hw

theorem of_some (h : StepKind s event s') {newEpoch : ℕ}
    (hw : s.writesEpoch event = some newEpoch) :
    s'.heap.currentEpoch = newEpoch ∧ s'.returnedEpochs.Perm (newEpoch :: s.returnedEpochs) ∧
      s.Pending newEpoch := by
  cases h with
  | start => cases hw
  | unknown hk => simp [RefreshSystem.writesEpoch, hk] at hw
  | resume _ hwrites =>
    rw [hwrites] at hw
    cases hw
  | succeed hk hwrites hepoch hpending hnone hreturned =>
    rw [hwrites] at hw
    obtain rfl := Option.some.inj hw
    exact ⟨hepoch, filterMap_set_perm hk hnone hreturned,
      _, List.mem_of_getElem? hk, hpending, rfl⟩

/-- A call that is under way was so before, or starts from the epoch that it meets. -/
theorem pending (h : StepKind s event s') {newEpoch : ℕ} (hpending : s'.Pending newEpoch) :
    s.Pending newEpoch ∨
      s.writesEpoch event = none ∧ newEpoch = s.heap.currentEpoch + 1 := by
  obtain ⟨c, hc, hunsettled, rfl⟩ := hpending
  cases h with
  | start _ hnew =>
    rcases List.mem_append.mp hc with hold | hlast
    · exact Or.inl ⟨c, hold, hunsettled, rfl⟩
    · obtain rfl := List.mem_singleton.mp hlast
      exact Or.inr ⟨rfl, hnew⟩
  | unknown => exact Or.inl ⟨c, hc, hunsettled, rfl⟩
  | @resume _ _ call progress _ hk _ _ _ hsettled =>
    rcases List.mem_or_eq_of_mem_set hc with hold | rfl
    · exact Or.inl ⟨c, hold, hunsettled, rfl⟩
    · refine Or.inl ⟨(call, progress), List.mem_of_getElem? hk, ?_, rfl⟩
      rw [Bool.eq_false_iff]
      intro hprogress
      rw [hsettled hprogress] at hunsettled
      cases hunsettled
  | succeed _ _ _ _ _ _ hsettled =>
    rcases List.mem_or_eq_of_mem_set hc with hold | rfl
    · exact Or.inl ⟨c, hold, hunsettled, rfl⟩
    · rw [hsettled] at hunsettled
      cases hunsettled

end StepKind

section

variable {G : Type} [AddCommGroup G] [DecidableEq G] (curve : Curve G) (sha256 : Bytes → Digest)

def epochCounter : Counter (refreshStep curve sha256) where
  value s := s.heap.currentEpoch
  written := RefreshSystem.returnedEpochs
  Pending := RefreshSystem.Pending
  writes := RefreshSystem.writesEpoch
  value_of_none hw := (stepKind sha256 _ _).currentEpoch_of_none hw
  written_of_none hw := (stepKind sha256 _ _).returnedEpochs_of_none hw
  value_of_some hw := ((stepKind sha256 _ _).of_some hw).1
  written_of_some hw := ((stepKind sha256 _ _).of_some hw).2.1
  pending_of_some hw := ((stepKind sha256 _ _).of_some hw).2.2
  pending_step hpending := (stepKind sha256 _ _).pending hpending

theorem not_pending_initial (q : ℤ) (engine : KeyRefreshEngine) (newEpoch : ℕ) :
    ¬ (initialSystem q engine).Pending newEpoch := by
  rintro ⟨c, hc, -⟩
  cases hc

/-- **Lost refreshes.** After any events of any number of calls, no refresh is lost exactly
when every call that succeeded found the epoch that it had read when it started. -/
theorem no_lost_refresh_iff (engine : KeyRefreshEngine)
    (events : List (RefreshEvent curve.CURVE_ORDER)) :
    (run (refreshStep curve sha256) (initialSystem curve.CURVE_ORDER engine) events).NoLostRefresh
        engine.currentEpoch ↔
      Always (refreshStep curve sha256) (initialSystem curve.CURVE_ORDER engine) events
        RefreshSystem.FindsOwnEpoch := by
  apply (epochCounter curve sha256).lossless_iff
  · rfl
  · exact not_pending_initial _ engine

/-! ## Calls one after the other -/

/-- A call starts when the calls before it have settled. -/
def RefreshSystem.StartsAlone {q : ℤ} (s : RefreshSystem q) : RefreshEvent q → Prop
  | .start _ => s.allSettled = true
  | .resume _ => True

/-- Only the last call can be under way, and it finds the epoch that it has read. -/
def RefreshSystem.OneUnderWay {q : ℤ} (s : RefreshSystem q) : Prop :=
  ∀ k c, s.calls[k]? = some c → c.2.isSettled = false →
    k + 1 = s.calls.length ∧ c.1.newEpoch = s.heap.currentEpoch + 1

theorem StepKind.oneUnderWay {q : ℤ} {s s' : RefreshSystem q} {event : RefreshEvent q}
    (h : StepKind s event s') (hs : s.OneUnderWay) (halone : s.StartsAlone event) :
    s'.OneUnderWay := by
  cases h with
  | start hepoch hnew =>
    intro k c hk hunsettled
    rcases getElem?_concat_eq_some hk with hold | ⟨rfl, rfl⟩
    · have hsettled := List.all_eq_true.mp halone c (List.mem_of_getElem? hold)
      rw [hunsettled] at hsettled
      cases hsettled
    · refine ⟨by simp, ?_⟩
      dsimp only
      rw [hnew, hepoch]
  | unknown => exact hs
  | @resume j _ call progress _ hj _ hepoch _ hsettled =>
    intro k c hk hunsettled
    dsimp only at hk ⊢
    rw [List.length_set, hepoch]
    rcases getElem?_set_eq_some hk with ⟨rfl, rfl⟩ | ⟨-, hold⟩
    · apply hs k _ hj
      rw [Bool.eq_false_iff]
      intro hprogress
      rw [hsettled hprogress] at hunsettled
      cases hunsettled
    · exact hs k c hold hunsettled
  | @succeed j _ call progress _ hj _ _ hpending _ _ hsettled =>
    intro k c hk hunsettled
    dsimp only at hk
    rcases getElem?_set_eq_some hk with ⟨rfl, rfl⟩ | ⟨hne, hold⟩
    · rw [hsettled] at hunsettled
      cases hunsettled
    · -- two calls would be the last one
      have hlast := (hs k c hold hunsettled).1
      have hlast' := (hs j _ hj hpending).1
      omega

theorem RefreshSystem.OneUnderWay.findsOwnEpoch {q : ℤ} {s : RefreshSystem q}
    (hs : s.OneUnderWay) (event : RefreshEvent q) : s.FindsOwnEpoch event := by
  intro newEpoch hw
  cases event with
  | start run => cases hw
  | resume k =>
    unfold RefreshSystem.writesEpoch at hw
    cases hk : s.calls[k]? with
    | none => simp [hk] at hw
    | some c =>
      obtain ⟨call, progress⟩ := c
      cases progress with
      | verifying =>
        obtain rfl : call.newEpoch = newEpoch := by simpa [hk, Progress.isVerifying] using hw
        exact (hs k _ hk rfl).2
      | _ => simp [hk, Progress.isVerifying] at hw

theorem no_lost_refresh_of_sequential (engine : KeyRefreshEngine)
    {events : List (RefreshEvent curve.CURVE_ORDER)}
    (h : Always (refreshStep curve sha256) (initialSystem curve.CURVE_ORDER engine) events
      RefreshSystem.StartsAlone) :
    (run (refreshStep curve sha256) (initialSystem curve.CURVE_ORDER engine) events).NoLostRefresh
      engine.currentEpoch := by
  apply ((epochCounter curve sha256).lossless_iff rfl (not_pending_initial _ engine) events).mpr
  intro past event rest hcut
  have hone : (run (refreshStep curve sha256) (initialSystem curve.CURVE_ORDER engine)
      past).OneUnderWay := by
    rw [hcut] at h
    apply run_induction (fun _ => RefreshSystem.OneUnderWay) _ _ h.left
    · intro k c hk
      cases hk
    · intro _ event hs halone
      exact (stepKind sha256 _ event).oneUnderWay hs halone
  exact hone.findsOwnEpoch event

end

/-! ## Two calls at once -/

/-- Two calls of `node-1` that both start before one of them is resumed. -/
def overlappingEvents : List (RefreshEvent Curve.curve43.CURVE_ORDER) :=
  [.start (twoPartyRun 1), .start (twoPartyRun 1), .resume 0, .resume 1, .resume 0, .resume 1,
    .resume 0, .resume 1]

def overlappingSystem : RefreshSystem Curve.curve43.CURVE_ORDER :=
  run (refreshStep Curve.curve43 fun _ => zeroDigest)
    (initialSystem _ (initializeEngine (nodeName 1) 2 2 (.create 18) (keyPairOf 7 11 18) 0))
    overlappingEvents

/-- Both calls have returned epoch 1 with success, and the epoch is 1. -/
theorem overlapping_refreshes :
    overlappingSystem.allSettled = true ∧ overlappingSystem.returnedEpochs = [1, 1] ∧
      overlappingSystem.heap.currentEpoch = 1 ∧ ¬ overlappingSystem.NoLostRefresh 0 := by
  have hfinal : overlappingSystem.allSettled = true ∧ overlappingSystem.returnedEpochs = [1, 1] ∧
      overlappingSystem.heap.currentEpoch = 1 := by decide +kernel
  obtain ⟨hsettled, hepochs, hepoch⟩ := hfinal
  refine ⟨hsettled, hepochs, hepoch, ?_⟩
  rintro ⟨-, hnodup⟩
  rw [hepochs] at hnodup
  simp at hnodup

end BioFire.KeyRefresh
