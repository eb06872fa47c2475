import BioFire.KeyRefresh
import BioFire.Runs

/-!
# Names and positions of the parties

`executeDKG` (`src/lib/protocol/mpc_cmp.ts`) pads the registry with the names `node-k`, keeps
the shares under the ids, and evaluates them at the positions. `getPeerIndex`
(`src/lib/protocol/key_refresh_engine.ts`) reads the index of a party out of its id.

* `selectedNodes_nodup_iff`: when the padded registry has distinct ids;
* `distinct_parties_iff`: in which runs every session has distinct parties with their own shares;
* `peer_index_iff`: for which registries the index of every party is its position.
-/

namespace BioFire.Mpc

open KeyRefresh Runs Sharing

/-! ## The padded registry -/

theorem nodeName_inj {i j : ℕ} (h : nodeName i = nodeName j) : i = j := by
  have hdecimal : decimal i = decimal j := List.append_cancel_left h
  rw [← digitsValue_decimal i, hdecimal, digitsValue_decimal]

theorem length_padRegistry (registry : List NodeConfig) (totalParties : ℕ) :
    (padRegistry registry totalParties).length = max registry.length totalParties := by
  simp only [padRegistry, List.length_append, List.length_map, List.length_range']
  omega

theorem padRegistry_of_le {registry : List NodeConfig} {totalParties : ℕ}
    (h : totalParties ≤ registry.length) : padRegistry registry totalParties = registry := by
  rw [padRegistry, Nat.sub_eq_zero_of_le h]
  simp

theorem padRegistry_padRegistry (registry : List NodeConfig) (m p : ℕ) :
    padRegistry (padRegistry registry m) p = padRegistry registry (max m p) := by
  have hranges : List.range' registry.length (max m p - registry.length) =
      List.range' registry.length (m - registry.length) ++
        List.range' (max registry.length m) (p - max registry.length m) := by
    have hcut : max m p - registry.length =
        (m - registry.length) + (p - max registry.length m) := by omega
    rw [hcut, ← List.range'_append_1]
    congr 2
    omega
  rw [padRegistry, length_padRegistry, padRegistry, padRegistry, hranges, List.map_append,
    List.append_assoc]

/-- The nodes that a call selects do not depend on the calls that padded the registry. -/
theorem selectedNodes_of_padded {state : DkgState} {registry : List NodeConfig} {m : ℕ}
    (h : state.nodeRegistry = padRegistry registry m) (p : ℕ) :
    selectedNodes state p = (padRegistry registry p).take p := by
  have hsplit : padRegistry registry (max m p) =
      padRegistry (padRegistry registry p) (max m p) := by
    rw [padRegistry_padRegistry, max_eq_right (le_max_right m p)]
  rw [selectedNodes, h, padRegistry_padRegistry, hsplit, padRegistry, List.take_append_of_le_length]
  rw [length_padRegistry]
  exact le_max_right _ _

theorem padRegistry_ids (registry : List NodeConfig) (totalParties : ℕ) :
    (padRegistry registry totalParties).map NodeConfig.id = registry.map NodeConfig.id ++
      (List.range' registry.length (totalParties - registry.length)).map fun i =>
        nodeName (i + 1) := by
  rw [padRegistry, List.map_append, List.map_map]
  rfl

/-- No registered id is one of the names with which the registry is padded. -/
def NamesFree (registry : List NodeConfig) (totalParties : ℕ) : Prop :=
  ∀ node ∈ registry, ∀ k, registry.length < k → k ≤ totalParties → node.id ≠ nodeName k

/-- **Distinct ids** of the nodes that are selected from distinct registered ones. -/
theorem selectedNodes_nodup_iff {registry : List NodeConfig}
    (h : (registry.map NodeConfig.id).Nodup) (totalParties : ℕ) :
    (((padRegistry registry totalParties).take totalParties).map NodeConfig.id).Nodup ↔
      NamesFree registry totalParties := by
  rcases le_or_gt totalParties registry.length with hle | hlt
  · rw [padRegistry_of_le hle]
    refine iff_of_true (h.sublist ((List.take_sublist _ _).map _)) ?_
    intro node _ k hk hk'
    omega
  · have htake : (padRegistry registry totalParties).take totalParties =
        padRegistry registry totalParties := by
      apply List.take_of_length_le
      rw [length_padRegistry]
      omega
    have hnames : ((List.range' registry.length (totalParties - registry.length)).map fun i =>
        nodeName (i + 1)).Nodup := by
      refine List.Nodup.map ?_ List.nodup_range'
      intro i j hij
      exact Nat.succ_injective (nodeName_inj hij)
    rw [htake, padRegistry_ids, List.nodup_append]
    constructor
    · rintro ⟨-, -, hdisjoint⟩ node hnode k hk hk'
      refine hdisjoint _ (List.mem_map_of_mem hnode) _ (List.mem_map.mpr ⟨k - 1, ?_, ?_⟩)
      · rw [List.mem_range'_1]
        omega
      · rw [Nat.sub_add_cancel (by omega)]
    · intro hfree
      refine ⟨h, hnames, ?_⟩
      rintro id hid name hname rfl
      obtain ⟨node, hnode, rfl⟩ := List.mem_map.mp hid
      obtain ⟨i, hi, heq⟩ := List.mem_map.mp hname
      rw [List.mem_range'_1] at hi
      exact hfree node hnode (i + 1) (by omega) (by omega) heq.symm

/-! ## Runs -/

/-- The calls that write the registry. -/
inductive DkgEvent (q : ℤ) where
  | registerNodes (nodes : List NodeConfig)
  | executeDKG (threshold totalParties : ℕ) (curveType : JSString) (random : DkgRandomness q)
      (now : ℤ)

/-- The nodes that were registered last. -/
def registeredNodes {q : ℤ} (events : List (DkgEvent q)) : List NodeConfig :=
  events.foldl (fun
    | _, .registerNodes nodes => nodes
    | registered, .executeDKG .. => registered) []

theorem registeredNodes_nodup {q : ℤ} {events : List (DkgEvent q)}
    (h : ∀ nodes, .registerNodes nodes ∈ events → (nodes.map NodeConfig.id).Nodup) :
    ((registeredNodes events).map NodeConfig.id).Nodup := by
  induction events using List.reverseRecOn with
  | nil => exact List.nodup_nil
  | append_singleton events event ih =>
    rw [registeredNodes, List.foldl_concat, ← registeredNodes]
    cases event with
    | registerNodes nodes => exact h nodes (by simp)
    | executeDKG => exact ih fun nodes hmem => h nodes (List.mem_append_left _ hmem)

section

variable {G : Type} [AddCommGroup G] [DecidableEq G] (curve : Curve G)

def dkgStep (state : DkgState) : DkgEvent curve.CURVE_ORDER → DkgState
  | .registerNodes nodes => registerNodes state nodes
  | .executeDKG threshold totalParties curveType random now =>
    (executeDKG curve state threshold totalParties curveType random now).1

/-- The parties have distinct ids, and under each id the share is the value of the sum of the
nodes' polynomials at the position of the party. -/
structure DistinctParties (state' : DkgState) (threshold totalParties : ℕ)
    (random : DkgRandomness curve.CURVE_ORDER) (session : DKGSession) : Prop where
  parties_length : session.parties.length = totalParties
  ids_nodup : (session.parties.map MPCParty.id).Nodup
  share_eq : ∀ position, 1 ≤ position → position ≤ totalParties →
    storedShare state' session position = some (((aggregate curve.n
      (partyPolynomials curve threshold totalParties random.coefficient)).eval
        (position : ZMod curve.n)).val : ℤ)

variable {curve}

theorem distinctParties_iff {state state' : DkgState} {threshold totalParties : ℕ}
    {curveType : JSString} {random : DkgRandomness curve.CURVE_ORDER} {now : ℤ}
    {session : DKGSession}
    (h : executeDKG curve state threshold totalParties curveType random now =
      (state', .ok session)) :
    DistinctParties curve state' threshold totalParties random session ↔
      ((selectedNodes state totalParties).map NodeConfig.id).Nodup := by
  have hids := (executeDKG_record h).parties_ids
  constructor
  · intro hdistinct
    rw [← hids]
    exact hdistinct.ids_nodup
  · intro hnodup
    refine ⟨?_, hids ▸ hnodup, ?_⟩
    · have hlength := congrArg List.length hids
      rwa [List.length_map, List.length_map, selectedNodes_length] at hlength
    · intro position h₁ hn
      rw [(executeDKG_ok hnodup h).storedShare_eq h₁ hn, shareAt_eq]

theorem run_nodeRegistry (events : List (DkgEvent curve.CURVE_ORDER)) :
    ∃ m, (run (dkgStep curve) emptyState events).nodeRegistry =
      padRegistry (registeredNodes events) m := by
  induction events using List.reverseRecOn with
  | nil => exact ⟨0, rfl⟩
  | append_singleton events event ih =>
    obtain ⟨m, hm⟩ := ih
    rw [run_concat, registeredNodes, List.foldl_concat, ← registeredNodes]
    cases event with
    | registerNodes nodes => exact ⟨0, (padRegistry_of_le (Nat.zero_le _)).symm⟩
    | executeDKG threshold totalParties curveType random now =>
      refine ⟨max m totalParties, ?_⟩
      rw [dkgStep, executeDKG_nodeRegistry, hm, padRegistry_padRegistry]

variable (curve) in
/-- Every call of the run that returns has a session of distinct parties. -/
def SessionsDistinct (events : List (DkgEvent curve.CURVE_ORDER)) : Prop :=
  ∀ past threshold totalParties curveType random now rest state' session,
    events = past ++ .executeDKG threshold totalParties curveType random now :: rest →
    executeDKG curve (run (dkgStep curve) emptyState past) threshold totalParties curveType
      random now = (state', .ok session) →
    DistinctParties curve state' threshold totalParties random session

variable (curve) in
/-- No call of the run that returns pads the registry with a registered id. -/
def PaddingFree (events : List (DkgEvent curve.CURVE_ORDER)) : Prop :=
  ∀ past threshold totalParties curveType random now rest state' session,
    events = past ++ .executeDKG threshold totalParties curveType random now :: rest →
    executeDKG curve (run (dkgStep curve) emptyState past) threshold totalParties curveType
      random now = (state', .ok session) →
    NamesFree (registeredNodes past) totalParties

/-- **Distinct parties.** When the registered ids are distinct, every session of the run has
distinct parties with their own shares exactly when no padding meets a registered id. -/
theorem distinct_parties_iff {events : List (DkgEvent curve.CURVE_ORDER)}
    (hregister : ∀ nodes, .registerNodes nodes ∈ events → (nodes.map NodeConfig.id).Nodup) :
    SessionsDistinct curve events ↔ PaddingFree curve events := by
  refine forall₅_congr fun past threshold totalParties curveType random => forall₄_congr
    fun now rest state' session => imp_congr_right fun hcut => imp_congr_right fun h => ?_
  have hpast : ((registeredNodes past).map NodeConfig.id).Nodup := by
    apply registeredNodes_nodup
    intro nodes hmem
    apply hregister nodes
    rw [hcut]
    exact List.mem_append_left _ hmem
  obtain ⟨m, hm⟩ := run_nodeRegistry past
  rw [distinctParties_iff h, selectedNodes_of_padded hm]
  exact selectedNodes_nodup_iff hpast totalParties

end

/-- Alice and Bob register, and a key is generated for them. -/
def twoRegistered : List (DkgEvent Curve.curve43.CURVE_ORDER) :=
  [.registerNodes [⟨js "alice", [], none⟩, ⟨js "bob", [], none⟩],
    .executeDKG 2 2 (js "secp256k1") twoNodes 0]

theorem distinct_parties_iff_twoRegistered :
    SessionsDistinct Curve.curve43 twoRegistered ↔ PaddingFree Curve.curve43 twoRegistered := by
  apply distinct_parties_iff
  intro nodes hmem
  simp only [twoRegistered, List.mem_cons, DkgEvent.registerNodes.injEq, reduceCtorEq,
    List.not_mem_nil, or_false] at hmem
  rw [hmem]
  decide

/-- One node registers as `node-2`, and a key is generated for two parties. -/
def metName : List (DkgEvent Curve.curve43.CURVE_ORDER) :=
  [.registerNodes [⟨js "node-2", [], none⟩], .executeDKG 2 2 (js "secp256k1") twoNodes 0]

/-- The second party gets the name of the first. -/
theorem padding_meets_name : ¬ SessionsDistinct Curve.curve43 metName := by
  intro hrun
  obtain ⟨state', session, h⟩ : ∃ state' session,
      executeDKG Curve.curve43 (registerNodes emptyState [⟨js "node-2", [], none⟩]) 2 2
        (js "secp256k1") twoNodes 0 = (state', .ok session) := ⟨_, _, rfl⟩
  have hids : session.parties.map MPCParty.id = [js "node-2", js "node-2"] :=
    (executeDKG_record h).parties_ids
  have hnodup := (hrun [.registerNodes [⟨js "node-2", [], none⟩]] 2 2 _ twoNodes 0 [] state' session
    rfl h).ids_nodup
  rw [hids] at hnodup
  revert hnodup
  decide

/-! ## Indices -/

/-- The id has digits after its first `node-` that some follow, and they are the position. -/
def CarriesPosition (id : JSString) (position : ℕ) : Prop :=
  ∃ digits, matchNode id = some digits ∧
    JSNumber.ofRat (digitsValue digits) = JSNumber.ofRat position

theorem getPeerIndex_eq_iff {id : JSString} {position : ℕ} :
    getPeerIndex id = .ofRat position ↔ CarriesPosition id position := by
  unfold getPeerIndex CarriesPosition
  cases matchNode id with
  | some digits => simp
  | none =>
    have hne := getPeerIndex_nodeName_ne position
    rw [getPeerIndex_nodeName] at hne
    simp [Ne.symm hne]

theorem selectedNodes_registered {state : DkgState} {totalParties i : ℕ} (hi : i < totalParties)
    (hregistered : i < state.nodeRegistry.length) :
    ((selectedNodes state totalParties).map NodeConfig.id)[i]? =
      state.nodeRegistry[i]?.map NodeConfig.id := by
  rw [selectedNodes, List.map_take, padRegistry_ids, List.getElem?_take_of_lt hi,
    List.getElem?_append_left (by rwa [List.length_map]), List.getElem?_map]

theorem selectedNodes_padded {state : DkgState} {totalParties i : ℕ} (hi : i < totalParties)
    (hpadded : state.nodeRegistry.length ≤ i) :
    ((selectedNodes state totalParties).map NodeConfig.id)[i]? = some (nodeName (i + 1)) := by
  rw [selectedNodes, List.map_take, padRegistry_ids, List.getElem?_take_of_lt hi,
    List.getElem?_append_right (by rwa [List.length_map]), List.getElem?_map, List.length_map,
    List.getElem?_range' (by omega)]
  rw [Option.map_some]
  congr 2
  omega

variable {G : Type} [AddCommGroup G] [DecidableEq G] {curve : Curve G}

/-- **One index per party.** The index read out of the id of every party is its position
exactly when every registered id among the selected ones carries its position. -/
theorem peer_index_iff {state state' : DkgState} {threshold totalParties : ℕ}
    {curveType : JSString} {random : DkgRandomness curve.CURVE_ORDER} {now : ℤ}
    {session : DKGSession}
    (h : executeDKG curve state threshold totalParties curveType random now =
      (state', .ok session)) :
    (∀ i party, session.parties[i]? = some party →
        getPeerIndex party.id = .ofRat ((i + 1 : ℕ) : ℚ)) ↔
      ∀ i node, state.nodeRegistry[i]? = some node → i < totalParties →
        CarriesPosition node.id (i + 1) := by
  have hids := (executeDKG_record h).parties_ids
  constructor
  · intro hindex i node hnode hi
    have hlt := (List.getElem?_eq_some_iff.mp hnode).1
    have hid := selectedNodes_registered hi hlt
    rw [← hids, List.getElem?_map, hnode, Option.map_some, Option.map_eq_some_iff] at hid
    obtain ⟨party, hparty, hid⟩ := hid
    rw [← hid]
    exact getPeerIndex_eq_iff.mp (hindex i party hparty)
  · intro hcarries i party hparty
    have hid : ((selectedNodes state totalParties).map NodeConfig.id)[i]? = some party.id := by
      rw [← hids, List.getElem?_map, hparty, Option.map_some]
    have hi : i < totalParties := by
      have hlt := (List.getElem?_eq_some_iff.mp hid).1
      rwa [List.length_map, selectedNodes_length] at hlt
    rcases lt_or_ge i state.nodeRegistry.length with hlt | hge
    · rw [selectedNodes_registered hi hlt, Option.map_eq_some_iff] at hid
      obtain ⟨node, hnode, hid⟩ := hid
      rw [← hid]
      exact getPeerIndex_eq_iff.mpr (hcarries i node hnode hi)
    · rw [selectedNodes_padded hi hge, Option.some.injEq] at hid
      rw [← hid, getPeerIndex_nodeName]

/-- For two padded names. -/
theorem peer_index_iff_padded : ∃ state' session,
    executeDKG Curve.curve43 emptyState 2 2 (js "secp256k1") twoNodes 0 = (state', .ok session) ∧
    ((∀ i party, session.parties[i]? = some party →
        getPeerIndex party.id = .ofRat ((i + 1 : ℕ) : ℚ)) ↔
      ∀ i node, emptyState.nodeRegistry[i]? = some node → i < 2 →
        CarriesPosition node.id (i + 1)) := by
  obtain ⟨state', session, h⟩ : ∃ state' session, executeDKG Curve.curve43 emptyState 2 2
      (js "secp256k1") twoNodes 0 = (state', .ok session) := ⟨_, _, rfl⟩
  exact ⟨state', session, h, peer_index_iff h⟩

/-- The default names in the other order: the first party has the index 2. -/
theorem swapped_names_index : ∃ state' session party,
    executeDKG Curve.curve43 (registerNodes emptyState
        [⟨nodeName 2, [], none⟩, ⟨nodeName 1, [], none⟩]) 2 2 (js "secp256k1") twoNodes 0 =
      (state', .ok session) ∧
    session.parties[0]? = some party ∧ getPeerIndex party.id = .ofRat 2 ∧
    getPeerIndex party.id ≠ .ofRat 1 := by
  obtain ⟨state', session, party, h, hparty⟩ : ∃ state' session party,
      executeDKG Curve.curve43 (registerNodes emptyState
          [⟨nodeName 2, [], none⟩, ⟨nodeName 1, [], none⟩]) 2 2 (js "secp256k1") twoNodes 0 =
        (state', .ok session) ∧ session.parties[0]? = some party := ⟨_, _, _, rfl, rfl⟩
  have hid : party.id = nodeName 2 := by
    have hids := congrArg (fun l => l[0]?) (executeDKG_record h).parties_ids
    simp only [List.getElem?_map, hparty, Option.map_some] at hids
    exact Option.some.inj hids
  refine ⟨state', session, party, h, hparty, ?_, ?_⟩
  · rw [hid]
    exact getPeerIndex_nodeName 2
  · rw [hid, getPeerIndex_nodeName]
    with_unfolding_all decide

end BioFire.Mpc
