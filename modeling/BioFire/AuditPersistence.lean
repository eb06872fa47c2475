import BioFire.AuditChain

/-!
# The audit chain after a restart

Rows come back under their column names, so a loaded entry has no `previousHash`;
and the first appended entry takes the index of the genesis entry, so its row is
skipped.

* `first_append_skipped`: the table does not change with the first append;
* `loaded_not_valid`: two loaded entries are never linked;
* `restart_changes_chain`: no chain survives a restart.
-/

namespace BioFire.AuditChain

variable (sha256 : Bytes → Digest)

/-- What a restart finds: the same entries, a valid chain, and an unused next index. -/
def SurvivesRestart (genesis genesis' : Genesis) (calls : List AppendCall) : Prop :=
  let before := auditRun sha256 genesis (some []) calls
  let after := initChain sha256 genesis' (.fresh before.db)
  after.memoryChain = before.memoryChain ∧
    (verifyChainIntegrity sha256 after.memoryChain).isValid = true ∧
    ∀ e ∈ after.memoryChain, e.idx ≠ after.nextIndex

variable {sha256}

theorem insertOrIgnore_ne_nil {rows : List AuditRow} (h : rows ≠ []) (row : AuditRow) :
    insertOrIgnore rows row ≠ [] := by
  rw [insertOrIgnore]
  split
  · exact h
  · exact List.concat_ne_nil row rows

theorem mem_loadFromDB {db : Option (List AuditRow)} {e : AuditEntry} (h : e ∈ loadFromDB db) :
    e.previousHash = none := by
  obtain ⟨row, -, rfl⟩ := List.mem_map.mp h
  rfl

theorem loadFromDB_ne_nil {rows : List AuditRow} (h : rows ≠ []) : loadFromDB (some rows) ≠ [] := by
  intro hload
  have hlength := congrArg List.length hload
  rw [loadFromDB, List.length_map, List.length_insertionSort, List.length_nil] at hlength
  exact h (List.length_eq_zero_iff.mp hlength)

variable (sha256) in
/-- The table after the start, and the chain that goes with it. -/
theorem auditRun_nil (genesis : Genesis) :
    ∃ row, (auditRun sha256 genesis (some []) []).db = some [row] ∧ row.idx = .finite 0 ∧
      (auditRun sha256 genesis (some []) []).memoryChain = [genesisEntry sha256 genesis] ∧
      (auditRun sha256 genesis (some []) []).nextIndex = .finite 0 :=
  ⟨_, rfl, rfl, rfl, rfl⟩

/-- **The first appended entry is not stored**: its index is the genesis entry's. -/
theorem first_append_skipped (genesis : Genesis) (call : AppendCall) :
    (auditRun sha256 genesis (some []) [call]).db = (auditRun sha256 genesis (some []) []).db := by
  obtain ⟨row, hdb, hidx, -, hnext⟩ := auditRun_nil sha256 genesis
  have hstep : auditRun sha256 genesis (some []) [call] =
      appendLog sha256 (auditRun sha256 genesis (some []) []) call := rfl
  rw [hstep, appendLog, hdb, persistEntry, Option.map_some, insertOrIgnore, if_pos]
  simp [hidx, logEntry, hnext]

variable (sha256) in
/-- **Run.** The chain holds the genesis entry and the table is not empty. -/
theorem auditRun_genesis (genesis : Genesis) (calls : List AppendCall) :
    genesisEntry sha256 genesis ∈ (auditRun sha256 genesis (some []) calls).memoryChain ∧
      ∃ rows, (auditRun sha256 genesis (some []) calls).db = some rows ∧ rows ≠ [] := by
  induction calls using List.reverseRecOn with
  | nil =>
    obtain ⟨row, hdb, -, hchain, -⟩ := auditRun_nil sha256 genesis
    rw [hchain, hdb]
    exact ⟨List.mem_singleton_self _, [row], rfl, List.cons_ne_nil _ _⟩
  | append_singleton calls call ih =>
    obtain ⟨hmem, rows, hdb, hrows⟩ := ih
    rw [auditRun, Runs.run_concat, ← auditRun, appendLog, hdb]
    exact ⟨List.mem_append_left _ hmem, _, rfl, insertOrIgnore_ne_nil hrows _⟩

/-- **Two loaded entries are never linked.** -/
theorem loaded_not_valid {rows : List AuditRow} (h : 2 ≤ rows.length) :
    (verifyChainIntegrity sha256 (loadFromDB (some rows))).isValid = false := by
  rw [Bool.eq_false_iff, Ne, isValid_iff_intact]
  rintro ⟨hlinked, -⟩
  have hlength : (loadFromDB (some rows)).length = rows.length := by
    rw [loadFromDB, List.length_map, List.length_insertionSort, Option.getD_some]
  match hload : loadFromDB (some rows) with
  | [] => simp [hload] at hlength; omega
  | [_] => simp [hload] at hlength; omega
  | a :: b :: rest =>
    rw [hload] at hlinked
    have hlink := (HashChain.linked_cons_cons.mp hlinked).1
    have hb : b ∈ loadFromDB (some rows) := by simp [hload]
    rw [mem_loadFromDB hb] at hlink
    cases hlink

/-- **No chain survives a restart.** The loaded genesis entry has no `previousHash`. -/
theorem restart_changes_chain (genesis genesis' : Genesis) (calls : List AppendCall) :
    ¬ SurvivesRestart sha256 genesis genesis' calls := by
  rintro ⟨hchain, -, -⟩
  obtain ⟨hmem, rows, hdb, hrows⟩ := auditRun_genesis sha256 genesis calls
  obtain ⟨last, hlast⟩ := Option.ne_none_iff_exists'.mp
    (mt List.getLast?_eq_none_iff.mp (loadFromDB_ne_nil hrows))
  rw [hdb, initChain, AuditState.fresh, hlast] at hchain
  rw [← hchain] at hmem
  cases mem_loadFromDB hmem

/-- One append: two entries in memory, one after the restart. -/
theorem restart_loses_append :
    (auditRun sampleSha256 sampleGenesis (some []) [sampleCall]).memoryChain.length = 2 ∧
      (initChain sampleSha256 sampleGenesis (.fresh
        (auditRun sampleSha256 sampleGenesis (some []) [sampleCall]).db)).memoryChain.length = 1 ∧
      ¬ SurvivesRestart sampleSha256 sampleGenesis sampleGenesis [sampleCall] := by
  have hlengths : (auditRun sampleSha256 sampleGenesis (some []) [sampleCall]).memoryChain.length = 2 ∧
      (initChain sampleSha256 sampleGenesis (.fresh
        (auditRun sampleSha256 sampleGenesis (some []) [sampleCall]).db)).memoryChain.length = 1 := by
    decide
  refine ⟨hlengths.1, hlengths.2, ?_⟩
  rintro ⟨hchain, -, -⟩
  have hlength := congrArg List.length hchain
  rw [hlengths.1, hlengths.2] at hlength
  cases hlength

end BioFire.AuditChain
