import BioFire.AuditChain
import BioFire.Governance
import BioFire.Json
import BioFire.MerkleTree
import BioFire.SecureBuffer

/-!
# Merkle roots of the audit chain and of a policy

`getMerkleRoot` of `src/lib/audit/audit_chain.ts` and `computePolicyMerkleRoot` of
`src/lib/governance/governance_engine.ts` combine hashes in the same way. Both use
one SHA-256 for leaves and inner nodes and combine a last hash with itself.

* `root_binding`: lists of one length have different roots;
* `root_binding_of_distinct`: lists of any lengths, where no hash occurs twice and none is a
  combination;
* `merkle_roots_bind`: the two functions;
* `exists_same_root`: lists of different lengths can have one root.
-/

namespace BioFire

variable (sha256 : Bytes → Digest)

/-- `sha256(combined)` of two neighbours. -/
def merkleNode (left right : Bytes) : Bytes := (sha256 (left ++ right)).1

/-- The buffers that the loop over the levels hashes. -/
def hashedNodes (hashes : List Bytes) : Set Bytes :=
  {combined | ∃ p ∈ MerkleTree.hashedPairs (merkleNode sha256) hashes, p.1 ++ p.2 = combined}

variable {sha256}

theorem injOn_hashedPairs {hashes hashes' : List Bytes} (hleaves : ∀ h ∈ hashes, h.length = 32)
    (hleaves' : ∀ h ∈ hashes', h.length = 32)
    (hinj : Set.InjOn sha256 (hashedNodes sha256 hashes ∪ hashedNodes sha256 hashes')) :
    Set.InjOn (Function.uncurry (merkleNode sha256))
      {p | p ∈ MerkleTree.hashedPairs (merkleNode sha256) hashes ∨
        p ∈ MerkleTree.hashedPairs (merkleNode sha256) hashes'} := by
  have hnode : ∀ left right, (merkleNode sha256 left right).length = 32 :=
    fun left right => (sha256 (left ++ right)).2
  have hpairs := MerkleTree.forall_hashedPairs (P := fun h : Bytes => h.length = 32) hnode hleaves
  have hpairs' := MerkleTree.forall_hashedPairs (P := fun h : Bytes => h.length = 32) hnode hleaves'
  rintro p hp q hq heq
  have hbuffer : ∀ {p}, (p ∈ MerkleTree.hashedPairs (merkleNode sha256) hashes ∨
      p ∈ MerkleTree.hashedPairs (merkleNode sha256) hashes') →
      p.1.length = 32 ∧ p.1 ++ p.2 ∈ hashedNodes sha256 hashes ∪ hashedNodes sha256 hashes' := by
    rintro p (hp | hp)
    · exact ⟨(hpairs p hp).1, Or.inl ⟨p, hp, rfl⟩⟩
    · exact ⟨(hpairs' p hp).1, Or.inr ⟨p, hp, rfl⟩⟩
  obtain ⟨hlen, hmem⟩ := hbuffer hp
  obtain ⟨hlen', hmem'⟩ := hbuffer hq
  obtain ⟨hleft, hright⟩ :=
    List.append_inj (hinj hmem hmem' (Subtype.ext heq)) (hlen.trans hlen'.symm)
  exact Prod.ext hleft hright

/-- **Binding.** Lists of 32-byte hashes of one length with the same root are equal. -/
theorem root_binding {hashes hashes' : List Bytes} (hleaves : ∀ h ∈ hashes, h.length = 32)
    (hleaves' : ∀ h ∈ hashes', h.length = 32) (hlength : hashes.length = hashes'.length)
    (hinj : Set.InjOn sha256 (hashedNodes sha256 hashes ∪ hashedNodes sha256 hashes'))
    (h : MerkleTree.root (merkleNode sha256) hashes = MerkleTree.root (merkleNode sha256) hashes') :
    hashes = hashes' :=
  MerkleTree.root_inj hlength (injOn_hashedPairs hleaves hleaves' hinj) h

theorem length_of_mem_hashedNodes {hashes : List Bytes} (hleaves : ∀ h ∈ hashes, h.length = 32)
    {combined : Bytes} (h : combined ∈ hashedNodes sha256 hashes) : combined.length = 64 := by
  have hnode : ∀ left right, (merkleNode sha256 left right).length = 32 :=
    fun left right => (sha256 (left ++ right)).2
  obtain ⟨p, hp, rfl⟩ := h
  obtain ⟨hleft, hright⟩ :=
    MerkleTree.forall_hashedPairs (P := fun h : Bytes => h.length = 32) hnode hleaves p hp
  rw [List.length_append, hleft, hright]

variable (sha256) in
/-- Neither list has a hash twice, or the digest of a buffer that is hashed for one of them. -/
structure Distinct (hashes hashes' : List Bytes) : Prop where
  nodup : hashes.Nodup
  nodup' : hashes'.Nodup
  not_combined : ∀ combined ∈ hashedNodes sha256 hashes ∪ hashedNodes sha256 hashes',
    (sha256 combined).1 ∉ hashes ∧ (sha256 combined).1 ∉ hashes'

/-- **Binding of all lengths.** -/
theorem root_binding_of_distinct {hashes hashes' : List Bytes}
    (hleaves : ∀ h ∈ hashes, h.length = 32) (hleaves' : ∀ h ∈ hashes', h.length = 32)
    (hdistinct : Distinct sha256 hashes hashes')
    (hinj : Set.InjOn sha256 (hashedNodes sha256 hashes ∪ hashedNodes sha256 hashes'))
    (h : MerkleTree.root (merkleNode sha256) hashes = MerkleTree.root (merkleNode sha256) hashes') :
    hashes = hashes' := by
  refine MerkleTree.root_inj_of_nodup hdistinct.nodup hdistinct.nodup'
    (injOn_hashedPairs hleaves hleaves' hinj) ?_ h
  rintro p (hp | hp)
  · exact hdistinct.not_combined _ (Or.inl ⟨p, hp, rfl⟩)
  · exact hdistinct.not_combined _ (Or.inr ⟨p, hp, rfl⟩)

/-! ## The audit chain -/

namespace AuditChain

/-- `hexToBytes(e.hash.replace('0x', ''))`. -/
def leafHash (entry : AuditEntry) : Bytes := parsedBytes (removeHexPrefix entry.hash)

variable (sha256)

def getMerkleRoot (memoryChain : List AuditEntry) : JSString :=
  match MerkleTree.root (merkleNode sha256) (memoryChain.map leafHash) with
  -- `memoryChain.length === 0`
  | none => js "0x0"
  | some root => js "0x" ++ bytesToHex root

variable {sha256}

theorem getMerkleRoot_inj {memoryChain memoryChain' : List AuditEntry}
    (h : getMerkleRoot sha256 memoryChain = getMerkleRoot sha256 memoryChain') :
    MerkleTree.root (merkleNode sha256) (memoryChain.map leafHash) =
      MerkleTree.root (merkleNode sha256) (memoryChain'.map leafHash) := by
  have hzero : ∀ root, js "0x0" ≠ js "0x" ++ bytesToHex root := by
    intro root heq
    have hlength := congrArg List.length heq
    rw [List.length_append, length_bytesToHex] at hlength
    change 3 = 2 + _ at hlength
    omega
  rw [getMerkleRoot, getMerkleRoot] at h
  generalize MerkleTree.root (merkleNode sha256) (memoryChain.map leafHash) = root at h ⊢
  generalize MerkleTree.root (merkleNode sha256) (memoryChain'.map leafHash) = root' at h ⊢
  cases root with
  | none =>
    cases root' with
    | none => rfl
    | some root' => exact absurd h (hzero root')
  | some root =>
    cases root' with
    | none => exact absurd h.symm (hzero root)
    | some root' => rw [bytesToHex_injective (List.append_cancel_left h)]

theorem getMerkleRoot_nil_inj {memoryChain : List AuditEntry}
    (h : getMerkleRoot sha256 [] = getMerkleRoot sha256 memoryChain) : memoryChain = [] := by
  have hroot := getMerkleRoot_inj h
  rw [List.map_nil, (MerkleTree.root_eq_none_iff _).mpr rfl, eq_comm,
    MerkleTree.root_eq_none_iff] at hroot
  exact List.map_eq_nil_iff.mp hroot

/-- The chains have one length, or one of them is empty. -/
def Comparable (memoryChain memoryChain' : List AuditEntry) : Prop :=
  memoryChain = [] ∨ memoryChain' = [] ∨ memoryChain.length = memoryChain'.length

theorem getMerkleRoot_binding {memoryChain memoryChain' : List AuditEntry}
    (hleaves : ∀ e ∈ memoryChain ++ memoryChain', (leafHash e).length = 32)
    (hcomparable : Comparable memoryChain memoryChain' ∨
      Distinct sha256 (memoryChain.map leafHash) (memoryChain'.map leafHash))
    (hinj : Set.InjOn sha256 (hashedNodes sha256 (memoryChain.map leafHash) ∪
      hashedNodes sha256 (memoryChain'.map leafHash)))
    (h : getMerkleRoot sha256 memoryChain = getMerkleRoot sha256 memoryChain') :
    memoryChain.map leafHash = memoryChain'.map leafHash := by
  have hlengths : ∀ {chain}, chain ⊆ memoryChain ++ memoryChain' →
      ∀ hash ∈ chain.map leafHash, hash.length = 32 := by
    intro chain hchain hash hhash
    obtain ⟨e, he, rfl⟩ := List.mem_map.mp hhash
    exact hleaves e (hchain he)
  have hlist := hlengths (List.subset_append_left memoryChain memoryChain')
  have hlist' := hlengths (List.subset_append_right memoryChain memoryChain')
  rcases hcomparable with (rfl | rfl | hlength) | hdistinct
  · rw [getMerkleRoot_nil_inj h]
  · rw [getMerkleRoot_nil_inj h.symm]
  · exact root_binding hlist hlist' (by simpa using hlength) hinj (getMerkleRoot_inj h)
  · exact root_binding_of_distinct hlist hlist' hdistinct hinj (getMerkleRoot_inj h)

end AuditChain

/-! ## A policy -/

namespace Governance

/-- The object of a tier, with the properties in the order of the interface. -/
def tierObject (tierName : JSString) (minAmountUSD maxAmountUSD : JSNumber)
    (requiredRoles : List GovernanceRole) (thresholdCount timeLockSeconds : JSNumber)
    (requiresEmergencyOverride : Bool) : Json :=
  .object [(js "tierName", .string tierName), (js "minAmountUSD", jsonNumber minAmountUSD),
    (js "maxAmountUSD", jsonNumber maxAmountUSD),
    (js "requiredRoles", .array (requiredRoles.map fun role => .string role.text)),
    (js "thresholdCount", jsonNumber thresholdCount),
    (js "timeLockSeconds", jsonNumber timeLockSeconds),
    (js "requiresEmergencyOverride", .bool requiresEmergencyOverride)]

def ApprovalTier.toJson (tier : ApprovalTier) : Json :=
  tierObject tier.tierName (.finite tier.minAmountUSD) (.finite tier.maxAmountUSD)
    tier.requiredRoles (.finite tier.thresholdCount) (.finite tier.timeLockSeconds)
    tier.requiresEmergencyOverride

def BreakerCondition.text : BreakerCondition → JSString
  | .VELOCITY_SPIKE => js "VELOCITY_SPIKE"
  | .ANOMALOUS_AMOUNT => js "ANOMALOUS_AMOUNT"
  | .FAILED_AUTH => js "FAILED_AUTH"
  | .MANUAL_PANIC => js "MANUAL_PANIC"

def BreakerAction.text : BreakerAction → JSString
  | .FREEZE_OUTBOUND => js "FREEZE_OUTBOUND"
  | .FREEZE_ALL => js "FREEZE_ALL"
  | .ALERT_ONLY => js "ALERT_ONLY"

def CircuitBreakerRule.toJson (rule : CircuitBreakerRule) : Json :=
  .object [(js "ruleId", .string rule.ruleId), (js "condition", .string rule.condition.text),
    (js "threshold", jsonNumber (.finite rule.threshold)),
    (js "action", .string rule.action.text),
    (js "durationMinutes", jsonNumber (.finite rule.durationMinutes))]

variable (sha256)

/-- The hashes of the objects of a policy. -/
def policyLeaves (objects : List Json) : List Bytes :=
  objects.map fun object => (sha256 (textEncode object.stringify)).1

/-- `computePolicyMerkleRoot` on the objects of the tiers and the rules. -/
def merkleRootOfObjects (tiers rules : List Json) : Except JSError JSString :=
  match MerkleTree.root (merkleNode sha256) (policyLeaves sha256 (tiers ++ rules)) with
  -- `bytesToHex(undefined)`
  | none => .error externalError
  | some root => .ok (js "0x" ++ bytesToHex root)

def computePolicyMerkleRoot (tiers : List ApprovalTier) (rules : List CircuitBreakerRule) :
    Except JSError JSString :=
  merkleRootOfObjects sha256 (tiers.map ApprovalTier.toJson) (rules.map CircuitBreakerRule.toJson)

/-- What is hashed for the root of a policy. -/
def policyInputs (objects : List Json) : Set Bytes :=
  {text | ∃ object ∈ objects, textEncode object.stringify = text} ∪
    hashedNodes sha256 (policyLeaves sha256 objects)

variable {sha256}

theorem ApprovalTier.toJson_injective : Function.Injective ApprovalTier.toJson := by
  intro tier tier' h
  have hroles : Function.Injective fun role : GovernanceRole => Json.string role.text :=
    fun role role' hrole => GovernanceRole.text_injective (Json.string.inj hrole)
  simp only [toJson, tierObject, jsonNumber, Json.object.injEq, List.cons.injEq, Prod.mk.injEq,
    Json.string.injEq, Json.number.injEq, Json.array.injEq, Json.bool.injEq, true_and,
    and_true] at h
  obtain ⟨hname, hmin, hmax, hrequired, hthreshold, hlock, hoverride⟩ := h
  cases tier
  cases tier'
  simp_all [List.map_injective_iff.mpr hroles |>.eq_iff]

theorem CircuitBreakerRule.toJson_injective : Function.Injective CircuitBreakerRule.toJson := by
  intro rule rule' h
  have hcondition : Function.Injective BreakerCondition.text := by
    intro c c' hc
    cases c <;> cases c' <;> first | rfl | exact absurd hc (by decide)
  have haction : Function.Injective BreakerAction.text := by
    intro a a' ha
    cases a <;> cases a' <;> first | rfl | exact absurd ha (by decide)
  simp only [toJson, jsonNumber, Json.object.injEq, List.cons.injEq, Prod.mk.injEq,
    Json.string.injEq, Json.number.injEq, true_and, and_true, hcondition.eq_iff,
    haction.eq_iff] at h
  obtain ⟨hid, hcond, hthreshold, hact, hduration⟩ := h
  cases rule
  cases rule'
  simp_all

/-- The object of a tier, told from that of a rule by its first property. -/
def isTierObject : Json → Bool
  | .object ((key, _) :: _) => key = js "tierName"
  | _ => false

theorem filter_objects (tiers : List ApprovalTier) (rules : List CircuitBreakerRule) :
    (tiers.map ApprovalTier.toJson ++ rules.map CircuitBreakerRule.toJson).filter isTierObject =
      tiers.map ApprovalTier.toJson := by
  have htiers : ∀ object ∈ tiers.map ApprovalTier.toJson, isTierObject object = true := by
    intro object hobject
    obtain ⟨tier, -, rfl⟩ := List.mem_map.mp hobject
    rfl
  have hrules : ∀ object ∈ rules.map CircuitBreakerRule.toJson, ¬isTierObject object = true := by
    intro object hobject
    obtain ⟨rule, -, rfl⟩ := List.mem_map.mp hobject
    exact (by decide : ¬(js "ruleId" = js "tierName" : Bool) = true)
  rw [List.filter_append, List.filter_eq_self.mpr htiers, List.filter_eq_nil_iff.mpr hrules,
    List.append_nil]

theorem objects_inj {tiers tiers' : List ApprovalTier} {rules rules' : List CircuitBreakerRule}
    (h : tiers.map ApprovalTier.toJson ++ rules.map CircuitBreakerRule.toJson =
      tiers'.map ApprovalTier.toJson ++ rules'.map CircuitBreakerRule.toJson) :
    tiers = tiers' ∧ rules = rules' := by
  have htiers : tiers.map ApprovalTier.toJson = tiers'.map ApprovalTier.toJson := by
    rw [← filter_objects tiers rules, h, filter_objects]
  rw [htiers] at h
  exact ⟨List.map_injective_iff.mpr ApprovalTier.toJson_injective htiers,
    List.map_injective_iff.mpr CircuitBreakerRule.toJson_injective (List.append_cancel_left h)⟩

theorem hashed_of_mem {objects objects' : List Json} {object : Json}
    (h : object ∈ objects ∨ object ∈ objects') : textEncode object.stringify ∈
      policyInputs sha256 objects ∪ policyInputs sha256 objects' :=
  h.imp (fun h => Or.inl ⟨object, h, rfl⟩) fun h => Or.inl ⟨object, h, rfl⟩

theorem policyLeaf_inj {objects objects' : List Json}
    (hinj : Set.InjOn sha256 (policyInputs sha256 objects ∪ policyInputs sha256 objects')) :
    Set.InjOn (fun object : Json => (sha256 (textEncode object.stringify)).1)
      {object | object ∈ objects ∨ object ∈ objects'} :=
  fun _ hobject _ hobject' heq => textEncode_stringify_injective
    (hinj (hashed_of_mem hobject) (hashed_of_mem hobject') (Subtype.ext heq))

theorem length_policyLeaf (objects : List Json) :
    ∀ hash ∈ policyLeaves sha256 objects, hash.length = 32 := by
  intro hash hhash
  obtain ⟨object, -, rfl⟩ := List.mem_map.mp hhash
  exact (sha256 _).2

/-- Where no object is as short as a buffer of two hashes and none occurs twice, no hash occurs
twice and none is a combination. -/
theorem distinct_policyLeaves {objects objects' : List Json} (hnodup : objects.Nodup)
    (hnodup' : objects'.Nodup)
    (hlong : ∀ object, (object ∈ objects ∨ object ∈ objects') →
      64 < (textEncode object.stringify).length)
    (hinj : Set.InjOn sha256 (policyInputs sha256 objects ∪ policyInputs sha256 objects')) :
    Distinct sha256 (policyLeaves sha256 objects) (policyLeaves sha256 objects') := by
  have hcombined : ∀ combined ∈ hashedNodes sha256 (policyLeaves sha256 objects) ∪
      hashedNodes sha256 (policyLeaves sha256 objects'), ∀ object,
      (object ∈ objects ∨ object ∈ objects') →
        (sha256 (textEncode object.stringify)).1 ≠ (sha256 combined).1 := by
    intro combined hmem object hobject heq
    have hinput : combined ∈ policyInputs sha256 objects ∪ policyInputs sha256 objects' :=
      hmem.imp Or.inr Or.inr
    have hsame := hinj (hashed_of_mem hobject) hinput (Subtype.ext heq)
    have hlength : combined.length = 64 := hmem.elim
      (length_of_mem_hashedNodes (length_policyLeaf objects))
      (length_of_mem_hashedNodes (length_policyLeaf objects'))
    have hlt := hlong object hobject
    rw [hsame, hlength] at hlt
    exact lt_irrefl _ hlt
  refine ⟨hnodup.map_on ?_, hnodup'.map_on ?_, fun combined hmem => ⟨?_, ?_⟩⟩
  · exact fun object hobject object' hobject' =>
      policyLeaf_inj hinj (Or.inl hobject) (Or.inl hobject')
  · exact fun object hobject object' hobject' =>
      policyLeaf_inj hinj (Or.inr hobject) (Or.inr hobject')
  · intro hleaf
    obtain ⟨object, hobject, heq⟩ := List.mem_map.mp hleaf
    exact hcombined combined hmem object (Or.inl hobject) heq
  · intro hleaf
    obtain ⟨object, hobject, heq⟩ := List.mem_map.mp hleaf
    exact hcombined combined hmem object (Or.inr hobject) heq

/-- **Binding.** Lists of objects with the same root are equal, if they have one length, or no
object occurs twice and none is as short as a buffer of two hashes. -/
theorem merkleRootOfObjects_binding {tiers rules tiers' rules' : List Json} {root : JSString}
    (hcomparable : tiers.length + rules.length = tiers'.length + rules'.length ∨
      (tiers ++ rules).Nodup ∧ (tiers' ++ rules').Nodup ∧
        ∀ object, (object ∈ tiers ++ rules ∨ object ∈ tiers' ++ rules') →
          64 < (textEncode object.stringify).length)
    (hinj : Set.InjOn sha256
      (policyInputs sha256 (tiers ++ rules) ∪ policyInputs sha256 (tiers' ++ rules')))
    (h : merkleRootOfObjects sha256 tiers rules = .ok root)
    (h' : merkleRootOfObjects sha256 tiers' rules' = .ok root) :
    tiers ++ rules = tiers' ++ rules' := by
  have hroot : MerkleTree.root (merkleNode sha256) (policyLeaves sha256 (tiers ++ rules)) =
      MerkleTree.root (merkleNode sha256) (policyLeaves sha256 (tiers' ++ rules')) := by
    rw [merkleRootOfObjects] at h h'
    generalize MerkleTree.root (merkleNode sha256) (policyLeaves sha256 (tiers ++ rules)) = hash
      at h ⊢
    generalize MerkleTree.root (merkleNode sha256) (policyLeaves sha256 (tiers' ++ rules')) = hash'
      at h' ⊢
    cases hash with
    | none => cases h
    | some hash =>
      cases hash' with
      | none => cases h'
      | some hash' =>
        have htext := (Except.ok.inj h).trans (Except.ok.inj h').symm
        rw [bytesToHex_injective (List.append_cancel_left htext)]
  have hnodes := hinj.mono (Set.union_subset_union Set.subset_union_right Set.subset_union_right)
  refine MerkleTree.eq_of_map_eq (policyLeaf_inj hinj) ?_
  change policyLeaves sha256 (tiers ++ rules) = policyLeaves sha256 (tiers' ++ rules')
  rcases hcomparable with hlength | ⟨hnodup, hnodup', hlong⟩
  · exact root_binding (length_policyLeaf _) (length_policyLeaf _)
      (by simpa [policyLeaves] using hlength) hnodes hroot
  · exact root_binding_of_distinct (length_policyLeaf _) (length_policyLeaf _)
      (distinct_policyLeaves hnodup hnodup' hlong hinj) hnodes hroot

/-- The texts of tiers and rules are longer than a buffer of two hashes, already by the names of
their properties. -/
theorem length_stringify_object {members : List (JSString × Json)}
    (h : 64 < (members.map fun member => (quote member.1).length + 2).sum) :
    64 < (textEncode (Json.object members).stringify).length := by
  refine h.trans_le ((sum_keys_le members).trans (le_trans ?_ (length_le_length_textEncode _)))
  rw [Json.stringify, List.length_append, List.length_append]
  omega

theorem length_objects (tiers : List ApprovalTier) (rules : List CircuitBreakerRule) :
    ∀ object ∈ tiers.map ApprovalTier.toJson ++ rules.map CircuitBreakerRule.toJson,
      64 < (textEncode object.stringify).length := by
  intro object hobject
  rcases List.mem_append.mp hobject with hobject | hobject
  · obtain ⟨tier, -, rfl⟩ := List.mem_map.mp hobject
    exact length_stringify_object (by decide : 64 < ([js "tierName", js "minAmountUSD",
      js "maxAmountUSD", js "requiredRoles", js "thresholdCount", js "timeLockSeconds",
      js "requiresEmergencyOverride"].map fun key => (quote key).length + 2).sum)
  · obtain ⟨rule, -, rfl⟩ := List.mem_map.mp hobject
    exact length_stringify_object (by decide : 64 < ([js "ruleId", js "condition",
      js "threshold", js "action", js "durationMinutes"].map fun key =>
        (quote key).length + 2).sum)

theorem objects_nodup {tiers : List ApprovalTier} {rules : List CircuitBreakerRule}
    (htiers : tiers.Nodup) (hrules : rules.Nodup) :
    (tiers.map ApprovalTier.toJson ++ rules.map CircuitBreakerRule.toJson).Nodup := by
  refine (htiers.map ApprovalTier.toJson_injective).append
    (hrules.map CircuitBreakerRule.toJson_injective) ?_
  intro object htier hrule
  obtain ⟨tier, -, rfl⟩ := List.mem_map.mp htier
  obtain ⟨rule, -, heq⟩ := List.mem_map.mp hrule
  have hkey := congrArg isTierObject heq
  exact absurd hkey (by decide : ¬ (js "ruleId" = js "tierName" : Bool) = true)

/-- No tier and no rule occurs twice in either policy. -/
def Unrepeated (tiers tiers' : List ApprovalTier) (rules rules' : List CircuitBreakerRule) : Prop :=
  (tiers.Nodup ∧ rules.Nodup) ∧ tiers'.Nodup ∧ rules'.Nodup

end Governance

open AuditChain Governance

/-- **The two roots** bind lists of one length, and lists of any lengths in which nothing is
repeated and no leaf is a combination. -/
theorem merkle_roots_bind (sha256 : Bytes → Digest) :
    (∀ memoryChain memoryChain' : List AuditEntry,
      (∀ e ∈ memoryChain ++ memoryChain', (leafHash e).length = 32) →
      (Comparable memoryChain memoryChain' ∨
        Distinct sha256 (memoryChain.map leafHash) (memoryChain'.map leafHash)) →
      Set.InjOn sha256 (hashedNodes sha256 (memoryChain.map leafHash) ∪
        hashedNodes sha256 (memoryChain'.map leafHash)) →
      getMerkleRoot sha256 memoryChain = getMerkleRoot sha256 memoryChain' →
      memoryChain.map leafHash = memoryChain'.map leafHash) ∧
    ∀ (tiers tiers' : List ApprovalTier) (rules rules' : List CircuitBreakerRule) (root : JSString),
      (tiers.length + rules.length = tiers'.length + rules'.length ∨
        Unrepeated tiers tiers' rules rules') →
      Set.InjOn sha256 (policyInputs sha256 (tiers.map ApprovalTier.toJson ++
          rules.map CircuitBreakerRule.toJson) ∪
        policyInputs sha256 (tiers'.map ApprovalTier.toJson ++
          rules'.map CircuitBreakerRule.toJson)) →
      computePolicyMerkleRoot sha256 tiers rules = .ok root →
      computePolicyMerkleRoot sha256 tiers' rules' = .ok root → tiers = tiers' ∧ rules = rules' := by
  constructor
  · intro memoryChain memoryChain' hleaves hcomparable hinj h
    exact getMerkleRoot_binding hleaves hcomparable hinj h
  · intro tiers tiers' rules rules' root hcomparable hinj h h'
    refine objects_inj (merkleRootOfObjects_binding ?_ hinj h h')
    rcases hcomparable with hlength | ⟨⟨htiers, hrules⟩, htiers', hrules'⟩
    · left
      simpa using hlength
    · right
      refine ⟨objects_nodup htiers hrules, objects_nodup htiers' hrules', ?_⟩
      rintro object (hobject | hobject)
      · exact length_objects tiers rules object hobject
      · exact length_objects tiers' rules' object hobject

/-- An entry with a given hash. -/
def hashedEntry (hash : Bytes) : AuditEntry :=
  ⟨js "entry-00000000", .finite 0, [], [], [], none, [], js "0x" ++ bytesToHex hash, none, [], none⟩

@[simp] theorem leafHash_hashedEntry (hash : Bytes) : leafHash (hashedEntry hash) = hash := by
  rw [leafHash, hashedEntry, removeHexPrefix_append, parsedBytes_bytesToHex]

/-- **Lists of different lengths.** Any two lengths but zero have chains with one root. -/
theorem exists_same_root (sha256 : Bytes → Digest) {m n : ℕ} (hm : 0 < m) (hn : 0 < n) :
    ∃ memoryChain memoryChain' : List AuditEntry,
      memoryChain.length = m ∧ memoryChain'.length = n ∧
        (∀ e ∈ memoryChain ++ memoryChain', (leafHash e).length = 32) ∧
        getMerkleRoot sha256 memoryChain = getMerkleRoot sha256 memoryChain' := by
  have hnode : ∀ hash, (merkleNode sha256 hash hash).length = 32 :=
    fun hash => (sha256 (hash ++ hash)).2
  obtain ⟨left, right, hleft, hright, hroot⟩ :=
    MerkleTree.exists_collision (P := fun h : Bytes => h.length = 32) hnode hm hn genesisDigest.2
  refine ⟨List.replicate m (hashedEntry left), List.replicate n (hashedEntry right),
    List.length_replicate, List.length_replicate, ?_, ?_⟩
  · intro e he
    rcases List.mem_append.mp he with he | he
    · rw [List.eq_of_mem_replicate he, leafHash_hashedEntry, hleft]
    · rw [List.eq_of_mem_replicate he, leafHash_hashedEntry, hright]
  · rw [getMerkleRoot, getMerkleRoot, List.map_replicate, List.map_replicate, leafHash_hashedEntry,
      leafHash_hashedEntry, hroot]

/-! ## A third entry and its copy -/

def leftDigest : Digest :=
  ⟨[0xdb, 0x55, 0x3e, 0xdb, 0xfe, 0xf8, 0x25, 0x21, 0x4b, 0xff, 0x76,
    0x2e, 0x0d, 0xd5, 0xa1, 0x64, 0x3b, 0x58, 0x31, 0x2b, 0x28, 0x08,
    0x97, 0xa4, 0xba, 0x72, 0x5b, 0xbf, 0x53, 0x50, 0x5d, 0xa5], rfl⟩

def rightDigest : Digest :=
  ⟨[0x15, 0x8d, 0x7d, 0x21, 0x69, 0xd0, 0x30, 0x80, 0x40, 0x0a, 0x4d,
    0x1b, 0x87, 0x57, 0x25, 0x8d, 0x59, 0xa5, 0xb0, 0xf7, 0x18, 0xa1,
    0x7e, 0x2c, 0xba, 0xa6, 0x54, 0x31, 0x93, 0xf5, 0x85, 0x97], rfl⟩

def rootDigest : Digest :=
  ⟨[0x55, 0x59, 0x72, 0x34, 0xed, 0x8c, 0x45, 0x54, 0x5d, 0xea, 0xdb,
    0x58, 0xa0, 0x41, 0xf8, 0xe3, 0x50, 0xdf, 0x59, 0x6a, 0x6d, 0xf6,
    0x1c, 0xda, 0xdd, 0xf0, 0x26, 0xc7, 0x31, 0x61, 0xac, 0xd7], rfl⟩

def ruleDigest : Digest :=
  ⟨[0xb1, 0x5b, 0x74, 0x32, 0xe3, 0xbd, 0x28, 0x41, 0x2a, 0xde, 0xa6,
    0xb4, 0xf4, 0xb5, 0x72, 0x00, 0x28, 0x1d, 0xdb, 0x36, 0x88, 0x44,
    0x69, 0xd3, 0x4b, 0xae, 0xe1, 0x0b, 0x3d, 0xc6, 0x69, 0x35], rfl⟩

def rulePairDigest : Digest :=
  ⟨[0x28, 0x2f, 0x67, 0x59, 0x09, 0xb7, 0x3b, 0x4d, 0x7b, 0x48, 0xc7,
    0xd7, 0x46, 0x81, 0xcb, 0xe8, 0x25, 0x1f, 0x6c, 0x30, 0xe2, 0xf2,
    0x16, 0xbb, 0x38, 0x94, 0x50, 0x58, 0xc8, 0xb1, 0xfe, 0xd3], rfl⟩

def ruleRootDigest : Digest :=
  ⟨[0xcb, 0x53, 0x74, 0x79, 0xa6, 0xff, 0x0a, 0xd8, 0xdc, 0x09, 0xf6,
    0x10, 0x9c, 0x70, 0xb5, 0x47, 0xc7, 0x1a, 0x73, 0x72, 0x06, 0x86,
    0xbb, 0x6e, 0x09, 0x1b, 0x23, 0x50, 0xe6, 0x78, 0xbc, 0x5e], rfl⟩

def panicRule : CircuitBreakerRule := ⟨js "panic", .MANUAL_PANIC, 1, .FREEZE_ALL, 60⟩

/-- SHA-256 on the buffers and texts below. -/
def merkleSha256 (bytes : Bytes) : Digest :=
  if bytes = genesisDigest.1 ++ appendedDigest.1 then leftDigest
  else if bytes = signatureDigest.1 ++ signatureDigest.1 then rightDigest
  else if bytes = leftDigest.1 ++ rightDigest.1 then rootDigest
  else if bytes = ruleDigest.1 ++ ruleDigest.1 then rulePairDigest
  else if bytes = rulePairDigest.1 ++ rulePairDigest.1 then ruleRootDigest
  else ruleDigest

/-- The buffers and the text. -/
def merkleTexts : List Bytes :=
  [genesisDigest.1 ++ appendedDigest.1, signatureDigest.1 ++ signatureDigest.1,
    leftDigest.1 ++ rightDigest.1, ruleDigest.1 ++ ruleDigest.1,
    rulePairDigest.1 ++ rulePairDigest.1, textEncode panicRule.toJson.stringify]

def thirdChain : List AuditEntry :=
  [hashedEntry genesisDigest.1, hashedEntry appendedDigest.1, hashedEntry signatureDigest.1]

/-- The third entry twice. -/
def copiedChain : List AuditEntry := thirdChain ++ [hashedEntry signatureDigest.1]

/-- Two entries, and one with the digest of their hashes. -/
def firstPair : List AuditEntry := [hashedEntry genesisDigest.1, hashedEntry appendedDigest.1]

def combinedPair : List AuditEntry := [hashedEntry leftDigest.1]

/-- The entries of another actor, with the same hashes. -/
def renamedChain : List AuditEntry := thirdChain.map fun e => { e with actor := js "bob" }

theorem map_merkleSha256 : merkleTexts.map merkleSha256 =
    [leftDigest, rightDigest, rootDigest, rulePairDigest, ruleRootDigest, ruleDigest] := by
  decide

theorem injOn_merkleTexts : Set.InjOn merkleSha256 {text | text ∈ merkleTexts} := by
  have hnodup : (merkleTexts.map merkleSha256).Nodup := by
    rw [map_merkleSha256]
    decide
  exact fun text htext text' htext' => List.inj_on_of_nodup_map hnodup htext htext'

/-- Three hashes, and the third one twice, are hashed in the same buffers. -/
theorem hashedNodes_subset {sha256 : Bytes → Digest} {a b c : Bytes} {texts : List Bytes}
    (hab : a ++ b ∈ texts) (hcc : c ++ c ∈ texts)
    (hroot : (sha256 (a ++ b)).1 ++ (sha256 (c ++ c)).1 ∈ texts) :
    hashedNodes sha256 [a, b, c] ∪ hashedNodes sha256 [a, b, c, c] ⊆ {text | text ∈ texts} := by
  rintro text (⟨p, hp, rfl⟩ | ⟨p, hp, rfl⟩)
  · rw [MerkleTree.hashedPairs_three] at hp
    simp only [List.mem_cons, List.not_mem_nil, or_false] at hp
    rcases hp with rfl | rfl | rfl
    · exact hab
    · exact hcc
    · exact hroot
  · rw [MerkleTree.hashedPairs_four] at hp
    simp only [List.mem_cons, List.not_mem_nil, or_false] at hp
    rcases hp with rfl | rfl | rfl
    · exact hab
    · exact hcc
    · exact hroot

theorem injOn_chains : Set.InjOn merkleSha256
    (hashedNodes merkleSha256 (thirdChain.map leafHash) ∪
      hashedNodes merkleSha256 (copiedChain.map leafHash)) := by
  have htexts := map_merkleSha256
  simp only [merkleTexts, List.map_cons, List.cons.injEq] at htexts
  obtain ⟨hleft, hright, -⟩ := htexts
  apply injOn_merkleTexts.mono
  simp only [copiedChain, thirdChain, List.map_cons, List.map_nil, List.cons_append, List.nil_append,
    leafHash_hashedEntry]
  refine hashedNodes_subset ?_ ?_ ?_
  · simp [merkleTexts]
  · simp [merkleTexts]
  · rw [hleft, hright]
    simp [merkleTexts]

theorem injOn_pairs : Set.InjOn merkleSha256
    (hashedNodes merkleSha256 (firstPair.map leafHash) ∪
      hashedNodes merkleSha256 (combinedPair.map leafHash)) := by
  apply injOn_merkleTexts.mono
  simp only [firstPair, combinedPair, List.map_cons, List.map_nil, leafHash_hashedEntry]
  rintro text (⟨p, hp, rfl⟩ | ⟨p, hp, rfl⟩)
  · rw [MerkleTree.hashedPairs_two, List.mem_singleton] at hp
    simp [hp, merkleTexts]
  · simp [MerkleTree.hashedPairs] at hp

theorem root_pairs :
    getMerkleRoot merkleSha256 firstPair = getMerkleRoot merkleSha256 combinedPair := by
  have htexts := map_merkleSha256
  simp only [merkleTexts, List.map_cons, List.cons.injEq] at htexts
  have hleft : merkleNode merkleSha256 genesisDigest.1 appendedDigest.1 = leftDigest.1 :=
    congrArg Subtype.val htexts.1
  simp [getMerkleRoot, firstPair, combinedPair, MerkleTree.root, MerkleTree.nextLevel,
    MerkleTree.levelPairs, hleft]

theorem distinct_third : Distinct merkleSha256 (thirdChain.map leafHash)
    (thirdChain.map leafHash) := by
  have htexts := map_merkleSha256
  simp only [merkleTexts, List.map_cons, List.cons.injEq] at htexts
  obtain ⟨hleft, hright, hroot, -⟩ := htexts
  have hleaves : thirdChain.map leafHash =
      [genesisDigest.1, appendedDigest.1, signatureDigest.1] := by
    simp only [thirdChain, List.map_cons, List.map_nil, leafHash_hashedEntry]
  have hnot : ∀ combined ∈ hashedNodes merkleSha256 (thirdChain.map leafHash),
      (merkleSha256 combined).1 ∉ thirdChain.map leafHash := by
    rw [hleaves]
    rintro combined ⟨p, hp, rfl⟩
    rw [MerkleTree.hashedPairs_three] at hp
    simp only [List.mem_cons, List.not_mem_nil, or_false] at hp
    rcases hp with rfl | rfl | rfl
    · rw [hleft]
      decide
    · rw [hright]
      decide
    · simp only [merkleNode]
      rw [hleft, hright, hroot]
      decide
  refine ⟨by rw [hleaves]; decide, by rw [hleaves]; decide, ?_⟩
  rintro combined (hmem | hmem)
  · exact ⟨hnot combined hmem, hnot combined hmem⟩
  · exact ⟨hnot combined hmem, hnot combined hmem⟩

theorem policyLeaves_panic (n : ℕ) :
    policyLeaves merkleSha256 (List.replicate n panicRule.toJson) =
      List.replicate n ruleDigest.1 := by
  have htexts := map_merkleSha256
  simp only [merkleTexts, List.map_cons, List.cons.injEq] at htexts
  obtain ⟨-, -, -, -, -, hrule, -⟩ := htexts
  rw [policyLeaves, List.map_replicate, hrule]

theorem injOn_rules : Set.InjOn merkleSha256
    (policyInputs merkleSha256 (List.replicate 3 panicRule.toJson) ∪
      policyInputs merkleSha256 (List.replicate 4 panicRule.toJson)) := by
  have hnodes : hashedNodes merkleSha256 [ruleDigest.1, ruleDigest.1, ruleDigest.1] ∪
      hashedNodes merkleSha256 [ruleDigest.1, ruleDigest.1, ruleDigest.1, ruleDigest.1] ⊆
        {text | text ∈ merkleTexts} := by
    have htexts := map_merkleSha256
    simp only [merkleTexts, List.map_cons, List.cons.injEq] at htexts
    obtain ⟨-, -, -, hpair, -⟩ := htexts
    refine hashedNodes_subset ?_ ?_ ?_
    · simp [merkleTexts]
    · simp [merkleTexts]
    · rw [hpair]
      simp [merkleTexts]
  have htext : ∀ n, {text | ∃ object ∈ List.replicate n panicRule.toJson,
      textEncode object.stringify = text} ⊆ {text | text ∈ merkleTexts} := by
    rintro n text ⟨object, hobject, rfl⟩
    rw [List.eq_of_mem_replicate hobject]
    simp [merkleTexts]
  apply injOn_merkleTexts.mono
  rw [policyInputs, policyInputs, policyLeaves_panic, policyLeaves_panic]
  exact Set.union_subset
    (Set.union_subset (htext 3) (Set.subset_union_left.trans hnodes))
    (Set.union_subset (htext 4) (Set.subset_union_right.trans hnodes))

theorem computePolicyMerkleRoot_panic :
    computePolicyMerkleRoot merkleSha256 [] (List.replicate 3 panicRule) =
      .ok (js "0x" ++ bytesToHex ruleRootDigest.1) := by
  have htexts := map_merkleSha256
  simp only [merkleTexts, List.map_cons, List.cons.injEq] at htexts
  obtain ⟨-, -, -, hpairDigest, hrootDigest, -⟩ := htexts
  have hpair : merkleNode merkleSha256 ruleDigest.1 ruleDigest.1 = rulePairDigest.1 :=
    congrArg Subtype.val hpairDigest
  have hroot : merkleNode merkleSha256 rulePairDigest.1 rulePairDigest.1 = ruleRootDigest.1 :=
    congrArg Subtype.val hrootDigest
  rw [computePolicyMerkleRoot, merkleRootOfObjects, List.map_nil, List.nil_append,
    List.map_replicate, policyLeaves_panic]
  simp [MerkleTree.root, MerkleTree.nextLevel, MerkleTree.levelPairs, hpair, hroot]

theorem merkle_roots_bind_renamed :
    thirdChain ≠ renamedChain ∧ thirdChain.map leafHash = renamedChain.map leafHash ∧
      (List.replicate 3 panicRule = List.replicate 3 panicRule) := by
  have hmap : renamedChain.map leafHash = thirdChain.map leafHash := by
    rw [renamedChain, List.map_map]
    rfl
  have hroot : getMerkleRoot merkleSha256 thirdChain = getMerkleRoot merkleSha256 renamedChain := by
    rw [getMerkleRoot, getMerkleRoot, hmap]
  refine ⟨by decide, ?_, ?_⟩
  · refine (merkle_roots_bind merkleSha256).1 thirdChain renamedChain ?_
      (Or.inr (hmap.symm ▸ distinct_third)) ?_ hroot
    · have hleaf : ∀ e : AuditEntry, leafHash { e with actor := js "bob" } = leafHash e :=
        fun _ => rfl
      simp [renamedChain, thirdChain, hleaf, genesisDigest.2, appendedDigest.2, signatureDigest.2]
    rw [hmap]
    exact injOn_chains.mono (Set.union_subset Set.subset_union_left Set.subset_union_left)
  · refine ((merkle_roots_bind merkleSha256).2 [] [] _ _ _ (Or.inl rfl) ?_ computePolicyMerkleRoot_panic
      computePolicyMerkleRoot_panic).2
    exact injOn_rules.mono (Set.union_subset Set.subset_union_left Set.subset_union_left)

/-- A copy of the last of three hashes does not change the root, nor does the digest of two
hashes in their place, and the text of a tier does not tell infinite bounds from `NaN`. -/
theorem copied_leaf_accepted :
    (Set.InjOn merkleSha256 (hashedNodes merkleSha256 (thirdChain.map leafHash) ∪
        hashedNodes merkleSha256 (copiedChain.map leafHash)) ∧
      (∀ e ∈ thirdChain ++ copiedChain, (leafHash e).length = 32) ∧
      getMerkleRoot merkleSha256 thirdChain = getMerkleRoot merkleSha256 copiedChain ∧
      thirdChain.map leafHash ≠ copiedChain.map leafHash) ∧
    (Set.InjOn merkleSha256 (hashedNodes merkleSha256 (firstPair.map leafHash) ∪
        hashedNodes merkleSha256 (combinedPair.map leafHash)) ∧
      (∀ e ∈ firstPair ++ combinedPair, (leafHash e).length = 32) ∧
      getMerkleRoot merkleSha256 firstPair = getMerkleRoot merkleSha256 combinedPair ∧
      firstPair.map leafHash ≠ combinedPair.map leafHash) ∧
    (Set.InjOn merkleSha256 (policyInputs merkleSha256 (List.replicate 3 panicRule.toJson) ∪
        policyInputs merkleSha256 (List.replicate 4 panicRule.toJson)) ∧
      computePolicyMerkleRoot merkleSha256 [] (List.replicate 3 panicRule) =
        .ok (js "0x" ++ bytesToHex ruleRootDigest.1) ∧
      computePolicyMerkleRoot merkleSha256 [] (List.replicate 4 panicRule) =
        .ok (js "0x" ++ bytesToHex ruleRootDigest.1) ∧
      List.replicate 3 panicRule ≠ List.replicate 4 panicRule) ∧
    merkleRootOfObjects merkleSha256
        [tierObject (js "top") (.finite 0) .infinity [] (.finite 1) (.finite 0) false] [] =
      merkleRootOfObjects merkleSha256
        [tierObject (js "top") (.finite 0) .nan [] (.finite 1) (.finite 0) false] [] := by
  refine ⟨⟨injOn_chains, ?_, ?_, ?_⟩, ⟨injOn_pairs, ?_, root_pairs, ?_⟩,
    ⟨injOn_rules, computePolicyMerkleRoot_panic, ?_, ?_⟩, rfl⟩
  · simp [copiedChain, thirdChain, genesisDigest.2, appendedDigest.2, signatureDigest.2]
  · rw [getMerkleRoot, getMerkleRoot, copiedChain, thirdChain]
    simp only [List.map_cons, List.map_nil, List.cons_append, List.nil_append]
    rw [MerkleTree.root_three]
  · simp [copiedChain]
  · simp [firstPair, combinedPair, genesisDigest.2, appendedDigest.2, leftDigest.2]
  · simp [firstPair, combinedPair]
  · rw [← computePolicyMerkleRoot_panic, computePolicyMerkleRoot, computePolicyMerkleRoot,
      merkleRootOfObjects, merkleRootOfObjects, List.map_nil, List.nil_append, List.nil_append,
      List.map_replicate, List.map_replicate, policyLeaves_panic, policyLeaves_panic]
    simp only [List.replicate]
    rw [MerkleTree.root_three]
  · intro h
    have hlength := congrArg List.length h
    cases hlength

end BioFire
