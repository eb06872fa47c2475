import BioFire.PartyNames
import BioFire.Signing

/-!
# Sessions of the signing ceremony (`src/lib/protocol/mpc_cmp.ts`)

`executeDKG` writes the session and its shares, `getDKGSession` and `executeThresholdSigning`
search for it by a property that the record does not have. The signers of a session are cut to
the threshold before the dropped party is taken out.

* `evaluatedAt_share`: the position of a stored share, whatever the ids are;
* `dropped_party_iff`: when a ceremony without one party has its signers and their indices;
* `completed_session_unusable`: no run leaves a session that is found.
-/

namespace BioFire.Mpc

open Runs Sharing

/-! ## The position of a share -/

/-- The last position of the id among the parties. -/
def EvaluatedAt (session : DKGSession) (id : JSString) (position : ℕ) : Prop :=
  1 ≤ position ∧ (session.parties.map MPCParty.id)[position - 1]? = some id ∧
    ∀ j, position ≤ j → (session.parties.map MPCParty.id)[j]? ≠ some id

section

variable {G : Type} [AddCommGroup G] {curve : Curve G}

/-- **Stored shares.** The share that is stored under an id was evaluated at the last position
of the id. -/
theorem evaluatedAt_share {state state' : DkgState} {threshold totalParties : ℕ}
    {session : DKGSession} (h : Recorded curve state state' threshold totalParties session) :
    ∃ polynomials allShares, state'.nodeShares.get session.sessionId = some allShares ∧
      ∀ id position, EvaluatedAt session id position →
        allShares.get id = some (totalShare curve polynomials position) := by
  obtain ⟨polynomials, hshares⟩ := h.nodeShares_eq
  refine ⟨polynomials, InsertionMap.empty.setAll ((selectedNodes state totalParties).zipIdx.map
    fun e => (e.1.id, totalShare curve polynomials ((e.2 + 1 : ℕ) : ℤ))), ?_, ?_⟩
  · rw [hshares, InsertionMap.get_set_self]
  · rintro id position ⟨hpos, hid, hlast⟩
    rw [h.parties_ids] at hid hlast
    obtain ⟨i, rfl⟩ := Nat.exists_eq_add_of_le' hpos
    apply InsertionMap.get_setAll_last (i := i)
    · rw [Nat.add_sub_cancel, List.getElem?_map, Option.map_eq_some_iff] at hid
      obtain ⟨node, hnode, rfl⟩ := hid
      rw [List.getElem?_map, List.getElem?_zipIdx, hnode]
      simp
    · intro j hj
      rw [List.map_map]
      exact (zipIdx_map_fst NodeConfig.id _).symm ▸ hlast j hj

/-! ## A dropped party -/

/-- The ceremony without the dropped party has `threshold` signers, and each has the index at
which its share was evaluated. -/
def ToleratesDrop (session : DKGSession) (dropped : JSString) : Prop :=
  ∃ signers, selectSigners session (some dropped) = .ok signers ∧
    signers.length = session.threshold ∧ (∀ s ∈ signers, s.id ≠ dropped) ∧
    ∀ (i : ℕ) (s : MPCParty), signers[i]? = some s → ∃ position : ℕ,
      (signerIndices signers.length)[i]? = some (position : ℤ) ∧ EvaluatedAt session s.id position

/-- The dropped party is not among the first `threshold` ones, and their ids do not recur. -/
def DropsLateParty (session : DKGSession) (dropped : JSString) : Prop :=
  (∀ s ∈ session.parties.take session.threshold, s.id ≠ dropped) ∧
    ∀ i j id, i < session.threshold → i < j →
      (session.parties.map MPCParty.id)[i]? = some id →
      (session.parties.map MPCParty.id)[j]? ≠ some id

theorem signerIndices_getElem? {t i : ℕ} (h : i < t) :
    (signerIndices t)[i]? = some ((i + 1 : ℕ) : ℤ) := by
  rw [signerIndices, List.getElem?_map, List.getElem?_range h, Option.map_some]

variable [DecidableEq G] {session : DKGSession} {dropped : JSString}

/-- The signers are the first parties whenever the dropped one is not among them. -/
theorem selectSigners_of_late (hlen : session.threshold ≤ session.parties.length)
    (hlate : ∀ s ∈ session.parties.take session.threshold, s.id ≠ dropped) :
    selectSigners session (some dropped) = .ok (session.parties.take session.threshold) := by
  have htake : ¬ (session.parties.take session.threshold).length < session.threshold := by
    rw [List.length_take]
    omega
  have hfilter : (session.parties.take session.threshold).filter (fun s => s.id ≠ dropped) =
      session.parties.take session.threshold := by
    rw [List.filter_eq_self]
    intro s hs
    exact decide_eq_true (hlate s hs)
  cases dropped with
  | nil => rw [selectSigners, if_neg htake]
  | cons c dropped =>
    unfold selectSigners
    dsimp only
    rw [hfilter, if_neg htake]

/-- Without enough parties behind the cut there are no signers. -/
theorem eq_take_of_selectSigners {signers : List MPCParty}
    (h : selectSigners session (some dropped) = .ok signers) :
    signers = session.parties.take session.threshold := by
  cases dropped with
  | nil =>
    unfold selectSigners at h
    dsimp only at h
    split at h
    · cases h
    · exact (Except.ok.inj h).symm
  | cons c dropped =>
    unfold selectSigners at h
    dsimp only at h
    split at h
    · cases h
    next hfew =>
      rw [← Except.ok.inj h]
      apply List.filter_sublist.eq_of_length_le
      rw [List.length_take]
      omega

/-- **A dropped party.** For a session of more parties than the threshold, the ceremony goes on
without a party exactly when it is not among the first `threshold` ones, whose ids do not
recur. -/
theorem dropped_party_iff {state state' : DkgState} {t n : ℕ} {curveType : JSString}
    {random : DkgRandomness curve.CURVE_ORDER} {now : ℤ}
    (h : executeDKG curve state t n curveType random now = (state', .ok session)) (htn : t < n)
    (dropped : JSString) : ToleratesDrop session dropped ↔ DropsLateParty session dropped := by
  have hrecord := executeDKG_record h
  have hlength : session.parties.length = n := by
    have hlength := congrArg List.length hrecord.parties_ids
    rwa [List.length_map, List.length_map, selectedNodes_length] at hlength
  have hlen : session.threshold ≤ session.parties.length := by
    rw [hrecord.threshold_eq, hlength]
    exact htn.le
  constructor
  · rintro ⟨signers, hsigners, -, hdropped, hindex⟩
    obtain rfl := eq_take_of_selectSigners hsigners
    refine ⟨hdropped, ?_⟩
    intro i j id hi hij hid
    rw [List.getElem?_map, Option.map_eq_some_iff] at hid
    obtain ⟨s, hs, rfl⟩ := hid
    obtain ⟨position, hposition, -, -, hlast⟩ := hindex i s (by rwa [List.getElem?_take_of_lt hi])
    rw [List.length_take_of_le hlen, signerIndices_getElem? hi, Option.some.injEq,
      Nat.cast_inj] at hposition
    exact hlast j (by omega)
  · rintro ⟨hlate, hrecur⟩
    refine ⟨_, selectSigners_of_late hlen hlate, List.length_take_of_le hlen, hlate, ?_⟩
    intro i s hs
    have hi : i < session.threshold := by
      have hlt := (List.getElem?_eq_some_iff.mp hs).1
      rwa [List.length_take_of_le hlen] at hlt
    rw [List.getElem?_take_of_lt hi] at hs
    have hid : (session.parties.map MPCParty.id)[i]? = some s.id := by
      rw [List.getElem?_map, hs, Option.map_some]
    refine ⟨i + 1, ?_, Nat.le_add_left 1 i, hid, ?_⟩
    · rw [List.length_take_of_le hlen]
      exact signerIndices_getElem? hi
    · intro j hj
      exact hrecur i j s.id hi hj hid

end

/-- Three nodes with the polynomial `1 + X` each. -/
def threeNodes : DkgRandomness Curve.curve43.CURVE_ORDER :=
  { twoNodes with coefficient := fun _ _ => ⟨1, Curve.scalar_one⟩ }

theorem executeDKG_threeNodes : ∃ state' session,
    executeDKG Curve.curve43 emptyState 2 3 (js "secp256k1") threeNodes 0 =
      (state', .ok session) := ⟨_, _, rfl⟩

/-- With three default parties and the threshold 2, the third one is dropped. -/
theorem dropped_party_iff_third : ∃ state' session,
    executeDKG Curve.curve43 emptyState 2 3 (js "secp256k1") threeNodes 0 =
      (state', .ok session) ∧
    (ToleratesDrop session (js "node-3") ↔ DropsLateParty session (js "node-3")) := by
  obtain ⟨state', session, h⟩ := executeDKG_threeNodes
  exact ⟨state', session, h, dropped_party_iff h (by decide) (js "node-3")⟩

/-- The first one is dropped. One signer is left of the first two, and the third is not asked. -/
theorem first_party_not_dropped : ∃ state' session,
    executeDKG Curve.curve43 emptyState 2 3 (js "secp256k1") threeNodes 0 =
      (state', .ok session) ∧
    js "node-1" ∈ session.parties.map MPCParty.id ∧
    selectSigners session (some (js "node-1")) =
      .error (plainError (js "Insufficient signers: 1 < 2")) ∧
    ¬ ToleratesDrop session (js "node-1") := by
  obtain ⟨state', session, h, hmem, hselect⟩ : ∃ state' session,
      executeDKG Curve.curve43 emptyState 2 3 (js "secp256k1") threeNodes 0 =
        (state', .ok session) ∧
      js "node-1" ∈ session.parties.map MPCParty.id ∧
      selectSigners session (some (js "node-1")) =
        .error (plainError (js "Insufficient signers: 1 < 2")) :=
    ⟨_, _, rfl, List.mem_cons_self, rfl⟩
  refine ⟨state', session, h, hmem, hselect, ?_⟩
  rintro ⟨signers, hsigners, -⟩
  rw [hselect] at hsigners
  cases hsigners

/-! ## Finding a session -/

structure KeyRefreshAnswer where
  refreshed : Bool
  newSessionId : JSString
  deriving DecidableEq

/-- It reads the session and draws an id, and writes nothing. -/
def executeKeyRefresh (state : DkgState) (sessionId : JSString) (random : Bytes) :
    DkgState × Except JSError KeyRefreshAnswer :=
  (state, match state.dkgSessions.get sessionId with
    | none => .error (plainError (js "DKG session not found"))
    | some _ => .ok ⟨true, generateSessionId random⟩)

def getDKGSession (state : DkgState) (sessionId : Option JSString) : Option DKGSession :=
  match sessionId with
  | none | some [] => state.dkgSessions.values.find? fun s => s.state = some (js "COMPLETED")
  | some id => state.dkgSessions.get id

/-- The calls of the module. -/
inductive MpcEvent (q : ℤ) where
  | dkg (event : DkgEvent q)
  | executeKeyRefresh (sessionId : JSString) (random : Bytes)
  | executeThresholdSigning (chainId amount symbol toAddress : JSString)
      (droppedPartyId : Option JSString) (random : SigningRandomness q) (now createdAt : ℤ)

section

variable {G : Type} [AddCommGroup G] [DecidableEq G] (curve : Curve G) (sha256 : Bytes → Digest)

def mpcStep (state : MpcState) : MpcEvent curve.CURVE_ORDER → MpcState
  | .dkg event => { state with dkg := dkgStep curve state.dkg event }
  | .executeKeyRefresh sessionId random =>
    { state with dkg := (executeKeyRefresh state.dkg sessionId random).1 }
  | .executeThresholdSigning chainId amount symbol toAddress droppedPartyId random now createdAt =>
    (executeThresholdSigning curve sha256 state chainId amount symbol toAddress droppedPartyId
      random now createdAt).1

def initialMpc : MpcState := ⟨emptyState, .empty⟩

/-- The event is a call of `executeDKG` that returns. -/
def CompletesDkg (state : MpcState) (event : MpcEvent curve.CURVE_ORDER) : Prop :=
  ∃ threshold totalParties curveType random now state' session,
    event = .dkg (.executeDKG threshold totalParties curveType random now) ∧
    executeDKG curve state.dkg threshold totalParties curveType random now = (state', .ok session)

/-- The first completed session is found, and signing with all parties gets past the lookups. -/
def Usable (state : MpcState) : Prop :=
  (∃ session, getDKGSession state.dkg none = some session ∧ session.phase = .COMPLETED) ∧
  ∀ chainId amount symbol toAddress random now createdAt e,
    (executeThresholdSigning curve sha256 state chainId amount symbol toAddress none random now
      createdAt).2 = .error e →
    e ≠ plainError (js "No active DKG session found") ∧ e ≠ plainError (js "DKG shares not found")

/-- Every session has its shares. -/
def SharesKept (state : DkgState) : Prop :=
  ∀ session ∈ state.dkgSessions.values, (state.nodeShares.get session.sessionId).isSome

variable {curve sha256}

theorem executeThresholdSigning_dkg (state : MpcState) (chainId amount symbol toAddress : JSString)
    (droppedPartyId : Option JSString) (random : SigningRandomness curve.CURVE_ORDER)
    (now createdAt : ℤ) :
    (executeThresholdSigning curve sha256 state chainId amount symbol toAddress droppedPartyId
      random now createdAt).1.dkg = state.dkg := by
  unfold executeThresholdSigning
  dsimp only
  split <;> rfl

/-- A call that throws keeps the sessions, and every session its shares. -/
theorem executeDKG_error {state state' : DkgState} {threshold totalParties : ℕ}
    {curveType : JSString} {random : DkgRandomness curve.CURVE_ORDER} {now : ℤ} {e : JSError}
    (h : executeDKG curve state threshold totalParties curveType random now =
      (state', .error e)) :
    state'.dkgSessions = state.dkgSessions ∧ ∀ sessionId,
      (state.nodeShares.get sessionId).isSome → (state'.nodeShares.get sessionId).isSome := by
  unfold executeDKG at h
  dsimp only at h
  split at h
  · obtain ⟨rfl, -⟩ := Prod.mk.inj h
    exact ⟨rfl, fun _ hkept => hkept⟩
  · split at h
    · obtain ⟨rfl, -⟩ := Prod.mk.inj h
      exact ⟨rfl, fun _ hkept => hkept⟩
    · split at h
      · obtain ⟨rfl, -⟩ := Prod.mk.inj h
        refine ⟨rfl, fun sessionId hkept => ?_⟩
        rw [InsertionMap.get_set]
        split
        · rfl
        · exact hkept
      · cases (Prod.mk.inj h).2

theorem mem_values_set {m : InsertionMap JSString DKGSession} {sessionId : JSString}
    {session other : DKGSession} (h : other ∈ (m.set sessionId session).values) :
    other = session ∨ other ∈ m.values := by
  obtain ⟨entry, hentry, rfl⟩ := List.mem_map.mp h
  rcases InsertionMap.mem_entries_set.mp hentry with rfl | ⟨hold, -⟩
  · exact Or.inl rfl
  · exact Or.inr (List.mem_map_of_mem hold)

omit [DecidableEq G] in
theorem Recorded.session_mem {state state' : DkgState} {threshold totalParties : ℕ}
    {session : DKGSession} (h : Recorded curve state state' threshold totalParties session) :
    session ∈ state'.dkgSessions.values := by
  rw [h.dkgSessions_eq]
  exact List.mem_map.mpr ⟨_, InsertionMap.mem_entries_set.mpr (Or.inl rfl), rfl⟩

variable (curve) in
/-- A call keeps the sessions and the shares, or records one session more. -/
theorem dkgStep_cases (state : DkgState) (event : DkgEvent curve.CURVE_ORDER) :
    ((dkgStep curve state event).dkgSessions = state.dkgSessions ∧
        ∀ sessionId, (state.nodeShares.get sessionId).isSome →
          ((dkgStep curve state event).nodeShares.get sessionId).isSome) ∨
      ∃ threshold totalParties session,
        Recorded curve state (dkgStep curve state event) threshold totalParties session := by
  cases event with
  | registerNodes nodes => exact Or.inl ⟨rfl, fun _ hkept => hkept⟩
  | executeDKG threshold totalParties curveType random now =>
    rw [dkgStep]
    rcases hcall : executeDKG curve state threshold totalParties curveType random now with
      ⟨state', e | session⟩
    · exact Or.inl (executeDKG_error hcall)
    · exact Or.inr ⟨threshold, totalParties, session, executeDKG_record hcall⟩

theorem sharesKept_step {state : DkgState} (h : SharesKept state)
    (event : DkgEvent curve.CURVE_ORDER) : SharesKept (dkgStep curve state event) := by
  rcases dkgStep_cases curve state event with ⟨hsessions, hkept⟩ | ⟨_, _, session, hrecord⟩
  · intro session hmem
    rw [hsessions] at hmem
    exact hkept _ (h session hmem)
  · obtain ⟨polynomials, hshares⟩ := hrecord.nodeShares_eq
    intro other hmem
    rw [hrecord.dkgSessions_eq] at hmem
    rw [hshares, InsertionMap.get_set]
    split
    · rfl
    next hne =>
      rcases mem_values_set hmem with rfl | hold
      · exact absurd rfl hne
      · exact h other hold

theorem dkgSessions_step {state : DkgState} (h : state.dkgSessions.values ≠ [])
    (event : DkgEvent curve.CURVE_ORDER) : (dkgStep curve state event).dkgSessions.values ≠ [] := by
  rcases dkgStep_cases curve state event with ⟨hsessions, -⟩ | ⟨_, _, session, hrecord⟩
  · rw [hsessions]
    exact h
  · exact List.ne_nil_of_mem hrecord.session_mem

variable (curve sha256) in
theorem mpcStep_dkg (state : MpcState) (event : MpcEvent curve.CURVE_ORDER) :
    (mpcStep curve sha256 state event).dkg = state.dkg ∨
      ∃ call, event = .dkg call ∧
        (mpcStep curve sha256 state event).dkg = dkgStep curve state.dkg call := by
  cases event with
  | dkg call => exact Or.inr ⟨call, rfl, rfl⟩
  | executeKeyRefresh sessionId random => exact Or.inl rfl
  | executeThresholdSigning chainId amount symbol toAddress droppedPartyId random now createdAt =>
    exact Or.inl (executeThresholdSigning_dkg state chainId amount symbol toAddress droppedPartyId
      random now createdAt)

/-- The search finds nothing: no record has the property that it reads. -/
theorem find_completed (l : List DKGSession) :
    l.find? (fun s => s.state = some (js "COMPLETED")) = none := by
  rw [List.find?_eq_none]
  intro s _
  simp [DKGSession.state]

theorem not_usable (state : MpcState) : ¬ Usable curve sha256 state := by
  rintro ⟨⟨session, hfound, -⟩, -⟩
  rw [getDKGSession, find_completed] at hfound
  cases hfound

theorem executeThresholdSigning_not_found (state : MpcState)
    (chainId amount symbol toAddress : JSString) (droppedPartyId : Option JSString)
    (random : SigningRandomness curve.CURVE_ORDER) (now createdAt : ℤ) :
    executeThresholdSigning curve sha256 state chainId amount symbol toAddress droppedPartyId
      random now createdAt = (state, .error (plainError (js "No active DKG session found"))) := by
  unfold executeThresholdSigning
  rw [find_completed]
  rfl

variable (curve sha256) in
theorem run_sharesKept (events : List (MpcEvent curve.CURVE_ORDER)) :
    SharesKept (run (mpcStep curve sha256) initialMpc events).dkg := by
  refine run_invariant (fun state : MpcState => SharesKept state.dkg) ?_ ?_ events
  · intro session hmem
    cases hmem
  · intro state event hkept
    rcases mpcStep_dkg curve sha256 state event with hsame | ⟨call, -, hcall⟩
    · rw [hsame]
      exact hkept
    · rw [hcall]
      exact sharesKept_step hkept call

theorem run_has_session {events : List (MpcEvent curve.CURVE_ORDER)}
    (h : Occurs (mpcStep curve sha256) initialMpc events (CompletesDkg curve)) :
    (run (mpcStep curve sha256) initialMpc events).dkg.dkgSessions.values ≠ [] := by
  induction events using List.reverseRecOn with
  | nil => exact absurd h not_occurs_nil
  | append_singleton events event ih =>
    rw [run_concat]
    rcases occurs_concat.mp h with hpast | ⟨threshold, totalParties, curveType, random, now, state',
      session, rfl, hcall⟩
    · rcases mpcStep_dkg curve sha256 (run (mpcStep curve sha256) initialMpc events) event with
        hsame | ⟨call, -, hcall⟩
      · rw [hsame]
        exact ih hpast
      · rw [hcall]
        exact dkgSessions_step (ih hpast) call
    · rw [mpcStep, dkgStep, hcall]
      exact List.ne_nil_of_mem (executeDKG_record hcall).session_mem

/-- **Completed sessions.** After every run with a key generation that returned there is a
session with its shares, and neither lookup finds it. -/
theorem completed_session_unusable {events : List (MpcEvent curve.CURVE_ORDER)}
    (h : Occurs (mpcStep curve sha256) initialMpc events (CompletesDkg curve)) :
    (∃ session ∈ (run (mpcStep curve sha256) initialMpc events).dkg.dkgSessions.values,
      session.phase = .COMPLETED ∧ ((run (mpcStep curve sha256) initialMpc
        events).dkg.nodeShares.get session.sessionId).isSome) ∧
    (∀ chainId amount symbol toAddress droppedPartyId random now createdAt,
      (executeThresholdSigning curve sha256 (run (mpcStep curve sha256) initialMpc events) chainId
        amount symbol toAddress droppedPartyId random now createdAt).2 =
          .error (plainError (js "No active DKG session found"))) ∧
    ¬ Usable curve sha256 (run (mpcStep curve sha256) initialMpc events) := by
  refine ⟨?_, ?_, not_usable _⟩
  · obtain ⟨session, hmem⟩ := List.exists_mem_of_ne_nil _ (run_has_session h)
    exact ⟨session, hmem, rfl, run_sharesKept curve sha256 events session hmem⟩
  · intro chainId amount symbol toAddress droppedPartyId random now createdAt
    rw [executeThresholdSigning_not_found]

end

/-- One key generation for two parties. -/
def oneDkg : List (MpcEvent Curve.curve43.CURVE_ORDER) :=
  [.dkg (.executeDKG 2 2 (js "secp256k1") twoNodes 0)]

theorem oneDkg_completes (sha256 : Bytes → Digest) :
    Occurs (mpcStep Curve.curve43 sha256) initialMpc oneDkg (CompletesDkg Curve.curve43) := by
  obtain ⟨state', session, h⟩ : ∃ state' session, executeDKG Curve.curve43 emptyState 2 2
      (js "secp256k1") twoNodes 0 = (state', .ok session) := ⟨_, _, rfl⟩
  exact ⟨[], _, [], rfl, 2, 2, js "secp256k1", twoNodes, 0, state', session, rfl, h⟩

theorem completed_session_unusable_oneDkg :
    (∃ session ∈ (run (mpcStep Curve.curve43 fun _ => zeroDigest) initialMpc
        oneDkg).dkg.dkgSessions.values,
      session.phase = .COMPLETED ∧ ((run (mpcStep Curve.curve43 fun _ => zeroDigest) initialMpc
        oneDkg).dkg.nodeShares.get session.sessionId).isSome) ∧
    (∀ chainId amount symbol toAddress droppedPartyId random now createdAt,
      (executeThresholdSigning Curve.curve43 (fun _ => zeroDigest)
        (run (mpcStep Curve.curve43 fun _ => zeroDigest) initialMpc oneDkg) chainId amount symbol
        toAddress droppedPartyId random now createdAt).2 =
          .error (plainError (js "No active DKG session found"))) ∧
    ¬ Usable Curve.curve43 (fun _ => zeroDigest)
      (run (mpcStep Curve.curve43 fun _ => zeroDigest) initialMpc oneDkg) :=
  completed_session_unusable (oneDkg_completes fun _ => zeroDigest)

/-- The key generation returns, and no session is found. -/
theorem generated_session_not_found :
    Occurs (mpcStep Curve.curve43 fun _ => zeroDigest) initialMpc oneDkg
      (CompletesDkg Curve.curve43) ∧
    getDKGSession (run (mpcStep Curve.curve43 fun _ => zeroDigest) initialMpc oneDkg).dkg none =
      none ∧
    ¬ Usable Curve.curve43 (fun _ => zeroDigest)
      (run (mpcStep Curve.curve43 fun _ => zeroDigest) initialMpc oneDkg) :=
  ⟨oneDkg_completes fun _ => zeroDigest, find_completed _, not_usable _⟩

end BioFire.Mpc
