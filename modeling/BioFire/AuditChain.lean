import BioFire.JSValue
import BioFire.NumberString
import BioFire.TextEncoding
import BioFire.HashChain
import BioFire.Runs
import Mathlib.Data.List.Sort
import Mathlib.Data.Set.Function

/-!
# The audit chain (`src/lib/audit/audit_chain.ts`)

SHA-256 is a parameter. Texts of the clock and random bytes are data of the calls.
The database, when there is one, is the table `audit_entries`: an insert that
violates a key is skipped, and a selected row is an object keyed by the column
names.
-/

namespace BioFire.AuditChain

structure AuditEntry where
  id : JSString
  idx : JSNumber
  timestamp : JSString
  action : JSString
  actor : JSString
  actorIp : Option JSString
  details : JSString
  hash : JSString
  -- `undefined` on an object that has no property of this name
  previousHash : Option JSString
  signature : JSString
  merkleRoot : Option JSString
  deriving DecidableEq

/-- A row of `audit_entries`, under its column names. -/
structure AuditRow where
  id : JSString
  idx : JSNumber
  timestamp : JSString
  action : JSString
  actor : JSString
  actor_ip : Option JSString
  details : JSString
  hash : JSString
  previous_hash : Option JSString
  signature : JSString
  merkle_root : Option JSString
  deriving DecidableEq

/-- The properties of a selected row that an `AuditEntry` has: the columns
`actor_ip`, `previous_hash` and `merkle_root` have other names. -/
def AuditRow.asEntry (row : AuditRow) : AuditEntry where
  id := row.id
  idx := row.idx
  timestamp := row.timestamp
  action := row.action
  actor := row.actor
  actorIp := none
  details := row.details
  hash := row.hash
  previousHash := none
  signature := row.signature
  merkleRoot := none

structure AuditState where
  memoryChain : List AuditEntry
  nextIndex : JSNumber
  db : Option (List AuditRow)
  deriving DecidableEq

/-- The module before `initChain`. -/
def AuditState.fresh (db : Option (List AuditRow)) : AuditState := ⟨[], .finite 0, db⟩

variable (sha256 : Bytes → Digest)

/-! ## Hashes -/

/-- The text that is hashed. -/
def hashedText (idx : JSNumber) (timestamp action actor details : JSString)
    (previousHash : Option JSString) : JSString :=
  numberString idx ++ js "-" ++ timestamp ++ js "-" ++ action ++ js "-" ++ actor ++ js "-" ++
    details ++ js "-" ++ previousHash.getD (js "undefined")

def calculateHash (idx : JSNumber) (timestamp action actor details : JSString)
    (previousHash : Option JSString) : JSString :=
  js "0x" ++ bytesToHex
    (sha256 (textEncode (hashedText idx timestamp action actor details previousHash))).1

def AuditEntry.text (entry : AuditEntry) : JSString :=
  hashedText entry.idx entry.timestamp entry.action entry.actor entry.details entry.previousHash

/-- The hash that an entry should have. -/
def AuditEntry.recomputed (entry : AuditEntry) : JSString :=
  calculateHash sha256 entry.idx entry.timestamp entry.action entry.actor entry.details
    entry.previousHash

/-! ## The table -/

/-- `INSERT OR IGNORE`: skipped when the primary key `id` or the unique `idx` is taken. -/
def insertOrIgnore (rows : List AuditRow) (row : AuditRow) : List AuditRow :=
  if rows.any fun r => r.id = row.id || r.idx = row.idx then rows else rows ++ [row]

def persistEntry (entry : AuditEntry) (db : Option (List AuditRow)) : Option (List AuditRow) :=
  db.map fun rows => insertOrIgnore rows
    { id := entry.id
      idx := entry.idx
      timestamp := entry.timestamp
      action := entry.action
      actor := entry.actor
      -- `entry.actorIp || null`
      actor_ip := if entry.actorIp = some [] then none else entry.actorIp
      details := entry.details
      hash := entry.hash
      previous_hash := entry.previousHash
      signature := entry.signature
      merkle_root := none }

/-- `SELECT * FROM audit_entries ORDER BY idx`. -/
def loadFromDB (db : Option (List AuditRow)) : List AuditEntry :=
  ((db.getD []).insertionSort fun r r' => r.idx.le r'.idx).map AuditRow.asEntry

/-! ## Growing the chain -/

def genesisPreviousHash : JSString := js "0x0000000000000000"

/-- What the clock and the random source give `appendGenesis`: the clock is read
twice. -/
structure Genesis where
  timestamp : JSString
  hashTimestamp : JSString
  random : Bytes

/-- The genesis entry. Its hash is taken of an empty `details` and of its own
reading of the clock. -/
def genesisEntry (genesis : Genesis) : AuditEntry where
  id := js "genesis-000"
  idx := .finite 0
  timestamp := genesis.timestamp
  action := js "GENESIS_BLOCK"
  actor := js "System Core"
  actorIp := none
  details := js "BioFire-MPC v6.0 Immutable Audit Ledger Initialized"
  hash := calculateHash sha256 (.finite 0) genesis.hashTimestamp (js "GENESIS_BLOCK")
    (js "System Core") [] (some genesisPreviousHash)
  previousHash := some genesisPreviousHash
  signature := js "0x" ++ bytesToHex genesis.random
  merkleRoot := none

/-- `appendGenesis`; the next index stays where it is. -/
def appendGenesis (genesis : Genesis) (s : AuditState) : AuditState :=
  { s with
    memoryChain := s.memoryChain ++ [genesisEntry sha256 genesis]
    db := persistEntry (genesisEntry sha256 genesis) s.db }

def initChain (genesis : Genesis) (s : AuditState) : AuditState :=
  match (loadFromDB s.db).getLast? with
  | some last => { s with memoryChain := loadFromDB s.db, nextIndex := last.idx.add (.finite 1) }
  | none => appendGenesis sha256 genesis s

/-- The arguments of `appendLog`, and the clock. -/
structure AppendCall where
  action : JSString
  actor : JSString
  details : JSString
  actorIp : Option JSString
  timestamp : JSString

/-- `s.padStart(8, '0')`. -/
def padStart8 (s : JSString) : JSString := List.replicate (8 - s.length) 48 ++ s

/-- The entry that `appendLog` makes. -/
def logEntry (s : AuditState) (call : AppendCall) : AuditEntry :=
  let previousHash := (s.memoryChain.getLast?.map AuditEntry.hash).getD genesisPreviousHash
  let hash := calculateHash sha256 s.nextIndex call.timestamp call.action call.actor call.details
    (some previousHash)
  { id := js "entry-" ++ padStart8 (numberString s.nextIndex)
    idx := s.nextIndex
    timestamp := call.timestamp
    action := call.action
    actor := call.actor
    actorIp := call.actorIp
    details := call.details
    hash := hash
    previousHash := some previousHash
    signature := js "0x" ++ bytesToHex (sha256 (textEncode (hash ++ call.actor))).1
    merkleRoot := none }

def appendLog (s : AuditState) (call : AppendCall) : AuditState where
  memoryChain := s.memoryChain ++ [logEntry sha256 s call]
  nextIndex := s.nextIndex.add (.finite 1)
  db := persistEntry (logEntry sha256 s call) s.db

/-- What the calls return. -/
structure AuditLogItem where
  id : JSString
  index : JSNumber
  timestamp : JSString
  action : JSString
  actor : JSString
  details : JSString
  previousHash : Option JSString
  currentHash : JSString
  signature : JSString
  deriving DecidableEq

/-- The item that `appendLog` returns, without the `actorIp` of its entry. -/
def returnedItem (s : AuditState) (call : AppendCall) : AuditLogItem :=
  let entry := logEntry sha256 s call
  { id := entry.id
    index := entry.idx
    timestamp := call.timestamp
    action := call.action
    actor := call.actor
    details := call.details
    previousHash := entry.previousHash
    currentHash := entry.hash
    signature := entry.signature }

/-- The module after its start on `db` and the calls. -/
def auditRun (genesis : Genesis) (db : Option (List AuditRow)) (calls : List AppendCall) :
    AuditState :=
  Runs.run (appendLog sha256) (initChain sha256 genesis (.fresh db)) calls

/-! ## Checking the chain -/

structure IntegrityReport where
  isValid : Bool
  brokenAtStep : Option ℕ
  hash : JSString
  totalBlocks : ℕ
  deriving DecidableEq

/-- The loop of `verifyChainIntegrity`: the first broken entry behind `previous`,
and its position. -/
def brokenStep (i : ℕ) (previous : AuditEntry) : List AuditEntry → Option (ℕ × AuditEntry)
  | [] => none
  | current :: rest =>
    if current.previousHash ≠ some previous.hash then some (i, current)
    else if current.recomputed sha256 ≠ current.hash then some (i, current)
    else brokenStep (i + 1) current rest

/-- `verifyChainIntegrity`: the first entry is not looked at. -/
def verifyChainIntegrity (memoryChain : List AuditEntry) : IntegrityReport :=
  match memoryChain with
  | [] => ⟨true, none, js "0x0", 0⟩
  | first :: rest =>
    match brokenStep sha256 1 first rest with
    | some (i, current) => ⟨false, some i, current.hash, memoryChain.length⟩
    | none => ⟨true, none, ((first :: rest).getLast (List.cons_ne_nil _ _)).hash, memoryChain.length⟩

variable {sha256}

/-! ## Intact chains -/

/-- Every entry but the first carries the hash of the one before it, and its own
hash is the recomputed one. -/
structure Intact (sha256 : Bytes → Digest) (chain : List AuditEntry) : Prop where
  linked : HashChain.Linked AuditEntry.hash AuditEntry.previousHash chain
  recomputes : ∀ e ∈ chain.tail, e.recomputed sha256 = e.hash

theorem brokenStep_eq_none {i : ℕ} {previous : AuditEntry} {rest : List AuditEntry} :
    brokenStep sha256 i previous rest = none ↔ Intact sha256 (previous :: rest) := by
  induction rest generalizing i previous with
  | nil =>
    constructor
    · intro _
      exact ⟨List.isChain_singleton previous, fun _ he => absurd he List.not_mem_nil⟩
    · intro _
      rfl
  | cons current rest ih =>
    rw [brokenStep]
    constructor
    · intro h
      split at h
      · cases h
      next hlink =>
        split at h
        · cases h
        next hhash =>
          obtain ⟨hlinked, hrest⟩ := ih.mp h
          refine ⟨HashChain.linked_cons_cons.mpr ⟨not_not.mp hlink, hlinked⟩, ?_⟩
          intro e he
          rcases List.mem_cons.mp he with rfl | he
          · exact not_not.mp hhash
          · exact hrest e he
    · rintro ⟨hlinked, hrecomputes⟩
      obtain ⟨hlink, hrest⟩ := HashChain.linked_cons_cons.mp hlinked
      rw [if_neg (not_not.mpr hlink), if_neg (not_not.mpr (hrecomputes current List.mem_cons_self))]
      exact ih.mpr ⟨hrest, fun e he => hrecomputes e (List.mem_cons_of_mem current he)⟩

/-- **What the check accepts.** -/
theorem isValid_iff_intact {chain : List AuditEntry} :
    (verifyChainIntegrity sha256 chain).isValid = true ↔ Intact sha256 chain := by
  cases chain with
  | nil =>
    constructor
    · intro _
      exact ⟨List.isChain_nil, fun _ he => absurd he List.not_mem_nil⟩
    · intro _
      rfl
  | cons first rest =>
    rw [← brokenStep_eq_none (i := 1), verifyChainIntegrity]
    cases brokenStep sha256 1 first rest with
    | none => exact iff_of_true rfl rfl
    | some broken => exact iff_of_false Bool.false_ne_true (Option.some_ne_none broken)

theorem intact_singleton (entry : AuditEntry) : Intact sha256 [entry] :=
  ⟨List.isChain_singleton entry, fun _ he => absurd he List.not_mem_nil⟩

/-- **Step.** `appendLog` keeps the chain intact. -/
theorem Intact.appendLog {s : AuditState} (h : Intact sha256 s.memoryChain) (call : AppendCall) :
    Intact sha256 (appendLog sha256 s call).memoryChain := by
  rcases s.memoryChain.eq_nil_or_concat with hnil | ⟨init, last, hconcat⟩
  · rw [AuditChain.appendLog, hnil]
    exact intact_singleton _
  · rw [List.concat_eq_append] at hconcat
    have hlast : s.memoryChain.getLast? = some last := by
      rw [hconcat, List.getLast?_concat]
    refine ⟨HashChain.linked_concat h.linked hlast ?_, ?_⟩
    · rw [logEntry, hlast]
      rfl
    · intro e he
      have hne : s.memoryChain ≠ [] := by
        rw [hconcat]
        exact List.concat_ne_nil last init
      rw [AuditChain.appendLog, List.tail_append_of_ne_nil hne] at he
      rcases List.mem_append.mp he with he | he
      · exact h.recomputes e he
      · rw [List.mem_singleton.mp he]
        rfl

/-- The call that an entry records. -/
def AuditEntry.call (entry : AuditEntry) : AppendCall :=
  ⟨entry.action, entry.actor, entry.details, entry.actorIp, entry.timestamp⟩

theorem calls_run (s : AuditState) (calls : List AppendCall) :
    (Runs.run (appendLog sha256) s calls).memoryChain.map AuditEntry.call =
      s.memoryChain.map AuditEntry.call ++ calls := by
  induction calls using List.reverseRecOn with
  | nil => exact (List.append_nil _).symm
  | append_singleton calls call ih =>
    rw [Runs.run_concat, appendLog, List.map_append, ih, List.append_assoc]
    rfl

theorem prefix_run (s : AuditState) (calls : List AppendCall) :
    s.memoryChain <+: (Runs.run (appendLog sha256) s calls).memoryChain := by
  induction calls using List.reverseRecOn with
  | nil => exact List.prefix_refl _
  | append_singleton calls call ih =>
    rw [Runs.run_concat]
    exact ih.trans (List.prefix_append _ _)

theorem Intact.run {s : AuditState} (h : Intact sha256 s.memoryChain) (calls : List AppendCall) :
    Intact sha256 (Runs.run (AuditChain.appendLog sha256) s calls).memoryChain :=
  Runs.run_invariant (fun s : AuditState => Intact sha256 s.memoryChain) h
    (fun _ call h => h.appendLog call) calls

/-- Without rows to load, the chain starts with the genesis entry. -/
theorem initChain_memoryChain {genesis : Genesis} {db : Option (List AuditRow)}
    (hdb : loadFromDB db = []) :
    (initChain sha256 genesis (.fresh db)).memoryChain = [genesisEntry sha256 genesis] := by
  rw [initChain, AuditState.fresh, hdb]
  rfl

/-- **Run.** Every chain reached by appends is intact. -/
theorem intact_auditRun (genesis : Genesis) {db : Option (List AuditRow)}
    (hdb : loadFromDB db = []) (calls : List AppendCall) :
    Intact sha256 (auditRun sha256 genesis db calls).memoryChain := by
  induction calls using List.reverseRecOn with
  | nil =>
    rw [auditRun, Runs.run_nil, initChain_memoryChain hdb]
    exact intact_singleton _
  | append_singleton calls call ih =>
    rw [auditRun, Runs.run_concat]
    exact ih.appendLog call

/-- **Run.** One entry for each call, behind the genesis entry. -/
theorem auditRun_length (genesis : Genesis) {db : Option (List AuditRow)}
    (hdb : loadFromDB db = []) (calls : List AppendCall) :
    (auditRun sha256 genesis db calls).memoryChain.length = 1 + calls.length := by
  induction calls using List.reverseRecOn with
  | nil =>
    rw [auditRun, Runs.run_nil, initChain_memoryChain hdb]
    rfl
  | append_singleton calls call ih =>
    rw [auditRun, Runs.run_concat, ← auditRun, appendLog, List.length_append, ih,
      List.length_append, List.length_singleton, List.length_singleton, Nat.add_assoc]

theorem verifyChainIntegrity_totalBlocks (chain : List AuditEntry) :
    (verifyChainIntegrity sha256 chain).totalBlocks = chain.length := by
  cases chain with
  | nil => rfl
  | cons first rest =>
    rw [verifyChainIntegrity]
    cases brokenStep sha256 1 first rest with
    | none => rfl
    | some broken => rfl

/-- The hash that a call returns is the one at the end of the chain. -/
theorem returnedItem_currentHash (s : AuditState) (call : AppendCall) :
    (appendLog sha256 s call).memoryChain.getLast?.map AuditEntry.hash =
      some (returnedItem sha256 s call).currentHash := by
  rw [appendLog, List.getLast?_concat]
  rfl

/-- **Appends keep the chain valid.** Without a database, whatever is appended. -/
theorem append_keeps_valid (sha256 : Bytes → Digest) (genesis : Genesis)
    (calls : List AppendCall) :
    (verifyChainIntegrity sha256 (auditRun sha256 genesis none calls).memoryChain).isValid = true ∧
      (verifyChainIntegrity sha256 (auditRun sha256 genesis none calls).memoryChain).totalBlocks =
        1 + calls.length ∧
      HashChain.Linked AuditEntry.hash AuditEntry.previousHash
        (auditRun sha256 genesis none calls).memoryChain ∧
      Runs.Always (appendLog sha256) (initChain sha256 genesis (.fresh none)) calls fun s call =>
        (appendLog sha256 s call).memoryChain.getLast?.map AuditEntry.hash =
          some (returnedItem sha256 s call).currentHash := by
  have hdb : loadFromDB none = [] := rfl
  have hintact : Intact sha256 (auditRun sha256 genesis none calls).memoryChain :=
    intact_auditRun genesis hdb calls
  refine ⟨isValid_iff_intact.mpr hintact, ?_, hintact.linked, ?_⟩
  · rw [verifyChainIntegrity_totalBlocks, auditRun_length genesis hdb calls]
  · intro past call rest _
    exact returnedItem_currentHash _ call

/-! ## Tampering -/

/-- Two entries agree on everything that is hashed. -/
structure SameFields (e e' : AuditEntry) : Prop where
  idx : e.idx = e'.idx
  timestamp : e.timestamp = e'.timestamp
  action : e.action = e'.action
  actor : e.actor = e'.actor
  details : e.details = e'.details
  previousHash : e.previousHash = e'.previousHash

/-- Two entries agree on everything that is hashed, and on the hash. -/
def SameRecord (e e' : AuditEntry) : Prop := SameFields e e' ∧ e.hash = e'.hash

/-- The separators of the two hashed texts stand at the same places, and the
encoder replaces the same lone surrogates in both. -/
structure SameLayout (e e' : AuditEntry) : Prop where
  idx : (numberString e.idx).length = (numberString e'.idx).length
  timestamp : e.timestamp.length = e'.timestamp.length
  action : e.action.length = e'.action.length
  actor : e.actor.length = e'.actor.length
  details : e.details.length = e'.details.length
  surrogates : loneSurrogates e.text = loneSurrogates e'.text

/-- The first entries agree on everything that is hashed. -/
def FirstAgree (chain chain' : List AuditEntry) : Prop :=
  ∀ e ∈ chain.head?, ∀ e' ∈ chain'.head?, SameFields e e'

/-- The byte strings whose hashes the check recomputes. -/
def hashedBytes (chain : List AuditEntry) : Set Bytes :=
  {bytes | ∃ e ∈ chain.tail, bytes = textEncode e.text}

theorem SameFields.sameLayout {e e' : AuditEntry} (h : SameFields e e') : SameLayout e e' where
  idx := by rw [h.idx]
  timestamp := by rw [h.timestamp]
  action := by rw [h.action]
  actor := by rw [h.actor]
  details := by rw [h.details]
  surrogates := by
    rw [AuditEntry.text, AuditEntry.text, h.idx, h.timestamp, h.action, h.actor, h.details,
      h.previousHash]

theorem SameLayout.fields {e e' : AuditEntry} (h : SameLayout e e') (htext : e.text = e'.text) :
    e.idx = e'.idx ∧ e.timestamp = e'.timestamp ∧ e.action = e'.action ∧ e.actor = e'.actor ∧
      e.details = e'.details ∧
      e.previousHash.getD (js "undefined") = e'.previousHash.getD (js "undefined") := by
  simp only [AuditEntry.text, hashedText, List.append_assoc] at htext
  obtain ⟨hidx, htext⟩ := List.append_inj htext h.idx
  obtain ⟨htimestamp, htext⟩ := List.append_inj (List.append_cancel_left htext) h.timestamp
  obtain ⟨haction, htext⟩ := List.append_inj (List.append_cancel_left htext) h.action
  obtain ⟨hactor, htext⟩ := List.append_inj (List.append_cancel_left htext) h.actor
  obtain ⟨hdetails, htext⟩ := List.append_inj (List.append_cancel_left htext) h.details
  exact ⟨numberString_injective hidx, htimestamp, haction, hactor, hdetails,
    List.append_cancel_left htext⟩

theorem text_eq_of_recomputed {e e' : AuditEntry} {known : Set Bytes}
    (hinj : Set.InjOn sha256 known) (he : textEncode e.text ∈ known)
    (he' : textEncode e'.text ∈ known) (hlayout : SameLayout e e')
    (h : e.recomputed sha256 = e'.recomputed sha256) : e.text = e'.text := by
  have hdigest : sha256 (textEncode e.text) = sha256 (textEncode e'.text) :=
    Subtype.ext (bytesToHex_injective (List.append_cancel_left h))
  exact eq_of_textEncode (hinj he he' hdigest) hlayout.surrogates

section Pair

variable {first first' : AuditEntry} {rest rest' : List AuditEntry}

/-- Behind the first entry, the hash fixes the fields of an entry of the same layout. -/
theorem SameLayout.sameFields (h : Intact sha256 (first :: rest))
    (h' : Intact sha256 (first' :: rest'))
    (hinj : Set.InjOn sha256 (hashedBytes (first :: rest) ∪ hashedBytes (first' :: rest')))
    {e e' : AuditEntry} (he : e ∈ rest) (he' : e' ∈ rest') (hlayout : SameLayout e e')
    (hhash : e.hash = e'.hash) : SameFields e e' := by
  have hrecomputed : e.recomputed sha256 = e'.recomputed sha256 := by
    rw [h.recomputes e he, h'.recomputes e' he', hhash]
  have htext := text_eq_of_recomputed hinj (Or.inl ⟨e, he, rfl⟩) (Or.inr ⟨e', he', rfl⟩) hlayout
    hrecomputed
  obtain ⟨hidx, htimestamp, haction, hactor, hdetails, hprevious⟩ := hlayout.fields htext
  obtain ⟨p, -, hp⟩ := HashChain.exists_prev h.linked he
  obtain ⟨p', -, hp'⟩ := HashChain.exists_prev h'.linked he'
  refine ⟨hidx, htimestamp, haction, hactor, hdetails, ?_⟩
  rw [hp, hp', Option.getD_some, Option.getD_some] at hprevious
  rw [hp, hp', hprevious]

theorem sameRecord_iff (h : Intact sha256 (first :: rest)) (h' : Intact sha256 (first' :: rest'))
    (hlength : rest.length = rest'.length)
    (hlast : (first :: rest).getLast?.map AuditEntry.hash =
      (first' :: rest').getLast?.map AuditEntry.hash)
    (hinj : Set.InjOn sha256 (hashedBytes (first :: rest) ∪ hashedBytes (first' :: rest'))) :
    List.Forall₂ SameRecord (first :: rest) (first' :: rest') ↔
      SameFields first first' ∧ List.Forall₂ SameLayout rest rest' := by
  constructor
  · intro hsame
    obtain ⟨hfirst, hrest⟩ := List.forall₂_cons.mp hsame
    exact ⟨hfirst.1, hrest.imp fun _ _ hrecord => hrecord.1.sameLayout⟩
  · rintro ⟨hfirst, hlayout⟩
    have hfields : ∀ {e e'}, (e, e') ∈ rest.zip rest' → e.hash = e'.hash → SameFields e e' := by
      intro e e' hzip hhash
      obtain ⟨he, he'⟩ := List.of_mem_zip hzip
      exact ((List.forall₂_iff_zip.mp hlayout).2 hzip).sameFields h h' hinj he he' hhash
    -- backwards along the links: the last hash fixes every hash
    have hdetermines : List.Forall₂ (fun e e' : AuditEntry => e.hash = e'.hash →
        e.previousHash = e'.previousHash) rest rest' :=
      List.forall₂_iff_zip.mpr ⟨hlength, fun hzip hhash => (hfields hzip hhash).previousHash⟩
    obtain ⟨hhash, hhashes⟩ := List.forall₂_cons.mp
      (HashChain.keys_agree h.linked h'.linked hlength hlast hdetermines)
    refine .cons ⟨hfirst, hhash⟩ (List.forall₂_iff_zip.mpr ⟨hlength, fun hzip => ?_⟩)
    have heq := (List.forall₂_iff_zip.mp hhashes).2 hzip
    exact ⟨hfields hzip heq, heq⟩

end Pair

theorem auditRun_ne_nil (genesis : Genesis) {db : Option (List AuditRow)}
    (hdb : loadFromDB db = []) (calls : List AppendCall) :
    (auditRun sha256 genesis db calls).memoryChain ≠ [] := by
  rw [← List.length_pos_iff, auditRun_length genesis hdb]
  exact Nat.add_pos_left Nat.one_pos _

/-- **Tamper evidence.** A chain that is accepted and ends with the hash of a chain
reached by appends agrees with it exactly when their first entries agree, which no
hash covers, and the later entries have the same layout. -/
theorem tamper_evident_iff (genesis : Genesis) {db : Option (List AuditRow)}
    (hdb : loadFromDB db = []) (calls : List AppendCall) {chain' : List AuditEntry}
    (hlength : (auditRun sha256 genesis db calls).memoryChain.length = chain'.length)
    (hlast : (auditRun sha256 genesis db calls).memoryChain.getLast?.map AuditEntry.hash =
      chain'.getLast?.map AuditEntry.hash)
    (hvalid : (verifyChainIntegrity sha256 chain').isValid = true)
    (hinj : Set.InjOn sha256
      (hashedBytes (auditRun sha256 genesis db calls).memoryChain ∪ hashedBytes chain')) :
    List.Forall₂ SameRecord (auditRun sha256 genesis db calls).memoryChain chain' ↔
      FirstAgree (auditRun sha256 genesis db calls).memoryChain chain' ∧
        List.Forall₂ SameLayout (auditRun sha256 genesis db calls).memoryChain.tail chain'.tail := by
  have hintact : Intact sha256 (auditRun sha256 genesis db calls).memoryChain :=
    intact_auditRun genesis hdb calls
  have hne : (auditRun sha256 genesis db calls).memoryChain ≠ [] := auditRun_ne_nil genesis hdb calls
  obtain ⟨first, rest, hchain⟩ := List.exists_cons_of_ne_nil hne
  rw [hchain] at hintact hlength hlast hinj ⊢
  obtain ⟨first', rest', rfl⟩ := List.exists_cons_of_length_eq_add_one hlength.symm
  have hfirst : FirstAgree (first :: rest) (first' :: rest') ↔ SameFields first first' := by
    simp [FirstAgree]
  rw [sameRecord_iff hintact (isValid_iff_intact.mp hvalid) (by simpa using hlength) hlast hinj,
    hfirst]
  rfl

/-! ## A chain of two entries -/

def sampleGenesis : Genesis :=
  ⟨js "2024-01-01T00:00:00.000Z", js "2024-01-01T00:00:00.000Z", List.replicate 32 7⟩

def sampleCall : AppendCall :=
  ⟨js "LOGIN-FAILED", js "alice", js "bad password", none, js "2024-01-01T00:00:01.000Z"⟩

/-- SHA-256 of the genesis text. -/
def genesisDigest : Digest :=
  ⟨[0x04, 0x64, 0x0e, 0x4d, 0x27, 0x93, 0x58, 0x8b, 0x2f, 0x0f, 0xea,
    0xea, 0xbf, 0xca, 0x5c, 0xee, 0x1a, 0xd9, 0x09, 0x88, 0xe2, 0x1e,
    0xc4, 0x20, 0x94, 0x9b, 0xae, 0xab, 0x76, 0x0f, 0xb1, 0xb9], rfl⟩

/-- SHA-256 of the text of the appended entry. -/
def appendedDigest : Digest :=
  ⟨[0x0c, 0xe2, 0xaf, 0x9c, 0xb1, 0xa4, 0xc9, 0xf0, 0x42, 0x3c, 0xc8,
    0x66, 0x02, 0x08, 0xc0, 0x16, 0x4f, 0xef, 0x5f, 0x99, 0xa8, 0x38,
    0x62, 0x55, 0xce, 0x98, 0x34, 0xe0, 0xe7, 0xe4, 0xaa, 0xb3], rfl⟩

/-- SHA-256 of the text that is signed. -/
def signatureDigest : Digest :=
  ⟨[0xa5, 0x0e, 0x95, 0x5c, 0xbc, 0xdf, 0x58, 0x30, 0x71, 0xdd, 0x27,
    0x56, 0x1b, 0xe8, 0xba, 0xcd, 0xee, 0x1c, 0x6f, 0x3c, 0xc5, 0x60,
    0xcd, 0x84, 0xd2, 0x76, 0x39, 0x5a, 0xe1, 0x09, 0xe5, 0xa9], rfl⟩

def sampleSha256 (bytes : Bytes) : Digest :=
  if bytes = textEncode (hashedText (.finite 0) sampleGenesis.hashTimestamp (js "GENESIS_BLOCK")
      (js "System Core") [] (some genesisPreviousHash)) then genesisDigest
  else if bytes = textEncode (js "0x" ++ bytesToHex appendedDigest.1 ++ js "alice") then
    signatureDigest
  else appendedDigest

def sampleChain : List AuditEntry :=
  (auditRun sampleSha256 sampleGenesis none [sampleCall]).memoryChain

/-- The action `LOGIN-FAILED` of `alice` as the action `LOGIN` of `FAILED-alice`. -/
def shiftedChain : List AuditEntry :=
  sampleChain.map fun e =>
    if e.action = js "LOGIN-FAILED" then { e with action := js "LOGIN", actor := js "FAILED-alice" }
    else e

/-- The sample chain with another signature on its last entry. -/
def resignedChain : List AuditEntry :=
  sampleChain.map fun e =>
    if e.action = js "LOGIN-FAILED" then { e with signature := js "0x" } else e

theorem injOn_of_texts {chain chain' : List AuditEntry} (bytes : Bytes)
    (h : ∀ e ∈ chain.tail, textEncode e.text = bytes)
    (h' : ∀ e ∈ chain'.tail, textEncode e.text = bytes) :
    Set.InjOn sampleSha256 (hashedBytes chain ∪ hashedBytes chain') := by
  have hall : ∀ b ∈ hashedBytes chain ∪ hashedBytes chain', b = bytes := by
    rintro b (⟨e, he, rfl⟩ | ⟨e, he, rfl⟩)
    · exact h e he
    · exact h' e he
  intro b hb b' hb' _
  rw [hall b hb, hall b' hb']

def appendedText : JSString :=
  hashedText (.finite 0) sampleCall.timestamp sampleCall.action sampleCall.actor sampleCall.details
    (some (js "0x" ++ bytesToHex genesisDigest.1))

theorem tamper_evident_iff_resigned :
    List.Forall₂ SameRecord sampleChain resignedChain ↔
      FirstAgree sampleChain resignedChain ∧
        List.Forall₂ SameLayout sampleChain.tail resignedChain.tail := by
  have hdb : loadFromDB none = [] := rfl
  obtain ⟨hlength, hlast, hvalid, htext, htext'⟩ :
      sampleChain.length = resignedChain.length ∧
      sampleChain.getLast?.map AuditEntry.hash = resignedChain.getLast?.map AuditEntry.hash ∧
      (verifyChainIntegrity sampleSha256 resignedChain).isValid = true ∧
      (∀ e ∈ sampleChain.tail, textEncode e.text = textEncode appendedText) ∧
      ∀ e ∈ resignedChain.tail, textEncode e.text = textEncode appendedText := by
    decide
  exact tamper_evident_iff sampleGenesis hdb [sampleCall] hlength hlast hvalid
    (injOn_of_texts _ htext htext')

/-- A separator moved from one field to the next is not noticed. -/
theorem shifted_separator_accepted :
    sampleChain.length = shiftedChain.length ∧
      sampleChain.getLast?.map AuditEntry.hash = shiftedChain.getLast?.map AuditEntry.hash ∧
      (verifyChainIntegrity sampleSha256 shiftedChain).isValid = true ∧
      Set.InjOn sampleSha256 (hashedBytes sampleChain ∪ hashedBytes shiftedChain) ∧
      ¬ List.Forall₂ SameRecord sampleChain shiftedChain := by
  obtain ⟨hlength, hlast, hvalid, htext, htext', hdiffer⟩ :
      sampleChain.length = shiftedChain.length ∧
      sampleChain.getLast?.map AuditEntry.hash = shiftedChain.getLast?.map AuditEntry.hash ∧
      (verifyChainIntegrity sampleSha256 shiftedChain).isValid = true ∧
      (∀ e ∈ sampleChain.tail, textEncode e.text = textEncode appendedText) ∧
      (∀ e ∈ shiftedChain.tail, textEncode e.text = textEncode appendedText) ∧
      sampleChain.map AuditEntry.action ≠ shiftedChain.map AuditEntry.action := by
    decide
  refine ⟨hlength, hlast, hvalid, injOn_of_texts _ htext htext', ?_⟩
  intro h
  have hactions : List.Forall₂ Eq (sampleChain.map AuditEntry.action)
      (shiftedChain.map AuditEntry.action) :=
    List.forall₂_map_left_iff.mpr (List.forall₂_map_right_iff.mpr
      (h.imp fun _ _ hrecord => hrecord.1.action))
  rw [List.forall₂_eq_eq_eq] at hactions
  exact hdiffer hactions

end BioFire.AuditChain
