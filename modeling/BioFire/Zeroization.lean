import BioFire.BufferMemory

/-!
# What is left of a secret (`src/lib/security/secure_buffer.ts`)

The contents of single arrays over the runs of `BufferMemory`: those of the array of a
buffer, and those of an array that nobody holds any more.

* `Change`, `call_changes`: the changes that calls are made of;
* `zeroized_iff_released`: what the array of a buffer holds, whatever the callers do;
* `parsed_text_remains`: what no release overwrites.
-/

namespace BioFire.BufferMemory

open Runs

variable {m : Memory}

/-! ## Changes -/

/-- The changes that calls are made of. -/
inductive Change : Memory → Memory → Prop
  | newArray (m : Memory) (contents : Bytes) : Change m (newArray m contents)
  | handOut (m : Memory) (contents : Bytes) : Change m (handOut m contents)
  | own (m : Memory) (contents : Bytes) : Change m (own m contents)
  | writeByte {m : Memory} {position : ℕ} (hmem : position ∈ m.handles) (i : ℕ) (b : UInt8) :
      Change m (writeByte m position i b)
  | release (m : Memory) (k : ℕ) : Change m (release m k)
  | uses (m : Memory) (uses : List ℕ) : Change m { m with uses }

open Relation in
theorem call_changes (m : Memory) (event : MemoryEvent) :
    ReflTransGen Change m (call m event).1 := by
  cases event with
  | newArray contents => exact .single (.handOut m contents)
  | writeByte handle i b =>
    rw [call]
    split
    next position hhandle => exact .single (.writeByte (List.mem_of_getElem? hhandle) i b)
    next => exact .refl
  | construct length =>
    rw [call, construct_eq_own]
    exact .single (.own m _)
  | ofArray handle =>
    rw [call]
    split
    next position hhandle =>
      rw [ofArray_eq_own]
      exact .single (.own m _)
    next => exact .refl
  | fromHex hex =>
    rw [call, fromHex]
    dsimp only
    rw [ofArray_eq_own]
    exact .tail (.single (.newArray m _)) (.own _ _)
  | bytes k =>
    rw [call]
    split
    next contents _ => exact .single (.handOut m contents)
    next => exact .refl
    next => exact .refl
  | asBigInt k =>
    rw [call]
    split
    next contents _ => exact .single (.newArray m contents)
    next => exact .refl
    next => exact .refl
  | isReleased k =>
    rw [call]
    split <;> exact .refl
  | equals k k' =>
    rw [call]
    split <;> exact .refl
  | release k => exact .single (.release m k)
  | use k =>
    rw [call]
    split
    next contents _ => exact .tail (.single (.handOut m contents)) (.uses _ _)
    next => exact .single (.release m k)
    next => exact .refl
  | endUse =>
    rw [call]
    split
    next => exact .refl
    next k uses _ => exact .tail (.single (.uses m uses)) (.release _ k)

theorem run_changes {P : Memory → Prop} (hchange : ∀ {m m'}, Change m m' → P m → P m')
    (h : P m) (events : List MemoryEvent) : P (finalState call m events) := by
  refine run_invariant P h (fun m event hm => ?_) events
  have hchanges := call_changes m event
  generalize (call m event).1 = last at hchanges ⊢
  induction hchanges with
  | refl => exact hm
  | tail _ hlast ih => exact hchange hlast ih

/-! ## Arrays that nobody holds -/

/-- An array with these contents that neither a caller nor a buffer holds. -/
structure Loose (position : ℕ) (contents : Bytes) (m : Memory) : Prop where
  found : m.arrays[position]? = some contents
  not_handle : position ∉ m.handles
  not_data : ∀ buffer ∈ m.buffers, position ∉ buffer.data

theorem lt_of_found {position : ℕ} {contents : Bytes} (h : m.arrays[position]? = some contents) :
    position < m.arrays.length := (List.getElem?_eq_some_iff.mp h).1

theorem found_newArray {position : ℕ} {contents : Bytes}
    (h : m.arrays[position]? = some contents) (new : Bytes) :
    (m.arrays ++ [new])[position]? = some contents := by
  rw [List.getElem?_append_left (lt_of_found h)]
  exact h

theorem found_modify {position position' : ℕ} {contents : Bytes}
    (h : m.arrays[position]? = some contents) (hne : position' ≠ position) (f : Bytes → Bytes) :
    (m.arrays.modify position' f)[position]? = some contents := by
  rw [List.getElem?_modify, h]
  simp [hne]

theorem not_mem_handOut {position : ℕ} {contents : Bytes}
    (h : m.arrays[position]? = some contents) (hmem : position ∉ m.handles) :
    position ∉ m.handles ++ [m.arrays.length] := by
  rw [List.mem_append, not_or]
  refine ⟨hmem, fun hlast => ?_⟩
  rw [List.mem_singleton] at hlast
  exact absurd (lt_of_found h) (by omega)

theorem loose_change {position : ℕ} {contents : Bytes} {m m' : Memory} (hchange : Change m m')
    (h : Loose position contents m) : Loose position contents m' := by
  cases hchange with
  | newArray new => exact ⟨found_newArray h.found new, h.not_handle, h.not_data⟩
  | handOut new =>
    exact ⟨found_newArray h.found new, not_mem_handOut h.found h.not_handle, h.not_data⟩
  | own new =>
    refine ⟨found_newArray h.found new, h.not_handle, fun buffer hbuffer => ?_⟩
    rcases List.mem_append.mp hbuffer with hold | hlast
    · exact h.not_data buffer hold
    · obtain rfl := List.mem_singleton.mp hlast
      intro hdata
      exact absurd (lt_of_found h.found) (by have := Option.some.inj hdata; omega)
  | writeByte hmem i b =>
    refine ⟨found_modify h.found ?_ _, h.not_handle, h.not_data⟩
    rintro rfl
    exact h.not_handle hmem
  | release k =>
    rcases release_cases m k with ⟨-, hsame⟩ | ⟨position', length, hbuffer, hrelease⟩
    · rwa [hsame]
    · rw [hrelease]
      refine ⟨found_modify h.found ?_ _, h.not_handle, fun buffer hmem => ?_⟩
      · rintro rfl
        exact h.not_data _ (List.mem_of_getElem? hbuffer) rfl
      · rcases List.mem_or_eq_of_mem_set hmem with hold | rfl
        · exact h.not_data buffer hold
        · exact Option.not_mem_none position
  | uses uses => exact ⟨h.found, h.not_handle, h.not_data⟩

/-! ## Arrays of buffers -/

/-- The buffer `k` has its array with these contents, or was released and left zeros there. -/
structure Keeps (k position : ℕ) (contents : Bytes) (m : Memory) : Prop where
  confined : Confined m
  held : (∃ length, m.buffers[k]? = some ⟨some position, false, length⟩ ∧
      m.arrays[position]? = some contents) ∨
    (∃ length, m.buffers[k]? = some ⟨none, true, length⟩) ∧
      Loose position (List.replicate contents.length 0) m

theorem Change.confined {m m' : Memory} (hchange : Change m m') (h : Confined m) :
    Confined m' := by
  cases hchange with
  | newArray contents => exact h.newArray contents
  | handOut contents => exact h.handOut contents
  | own contents => exact h.own contents
  | writeByte _ i b => exact h.writeByte _ i b
  | release k => exact h.release k
  | uses uses => exact h.withUses uses

theorem Change.buffer {m m' : Memory} (hchange : Change m m') {k : ℕ} {buffer : BufferObject}
    (hk : m.buffers[k]? = some buffer) :
    m'.buffers[k]? = some buffer ∨ m' = BufferMemory.release m k := by
  cases hchange with
  | newArray | handOut | writeByte | uses => exact Or.inl hk
  | own contents =>
    refine Or.inl ?_
    rw [BufferMemory.own, List.getElem?_append_left (List.getElem?_eq_some_iff.mp hk).1]
    exact hk
  | release k' =>
    by_cases hsame : k' = k
    · exact Or.inr (by rw [hsame])
    · refine Or.inl ?_
      rcases release_cases m k' with ⟨-, hrelease⟩ | ⟨position', length, -, hrelease⟩
      · rwa [hrelease]
      · rw [hrelease, List.getElem?_set_ne hsame]
        exact hk

/-- Nothing but a release of its buffer overwrites the array of a buffer. -/
theorem keeps_change {k position : ℕ} {contents : Bytes} {m m' : Memory} (hchange : Change m m')
    (h : Keeps k position contents m) : Keeps k position contents m' := by
  refine ⟨hchange.confined h.confined, ?_⟩
  rcases h.held with ⟨length, hbuffer, hfound⟩ | ⟨⟨length, hbuffer⟩, hloose⟩
  · have hmem := List.mem_of_getElem? hbuffer
    rcases hchange.buffer hbuffer with hkept | rfl
    · refine Or.inl ⟨length, hkept, ?_⟩
      cases hchange with
      | newArray new | handOut new | own new => exact found_newArray hfound new
      | writeByte hhandle i b =>
        refine found_modify hfound ?_ _
        rintro rfl
        exact h.confined.unshared _ hmem _ rfl hhandle
      | release k' =>
        rcases release_cases m k' with ⟨-, hrelease⟩ | ⟨position', length', hother, hrelease⟩
        · rwa [hrelease]
        · rw [hrelease] at hkept ⊢
          refine found_modify hfound ?_ _
          rintro rfl
          obtain rfl := h.confined.sole k' k _ _ _ hother hbuffer rfl rfl
          rw [List.getElem?_set_self (List.getElem?_eq_some_iff.mp hother).1] at hkept
          cases hkept
      | uses uses => exact hfound
    · have hrelease : release m k = { m with
          arrays := m.arrays.modify position fun contents => List.replicate contents.length 0
          buffers := m.buffers.set k ⟨none, true, length⟩ } := by
        rw [release, hbuffer]
      have hlt := (List.getElem?_eq_some_iff.mp hbuffer).1
      rw [hrelease]
      refine Or.inr ⟨⟨length, List.getElem?_set_self hlt⟩, ?_, ?_, ?_⟩
      · rw [List.getElem?_modify, hfound]
        simp
      · exact h.confined.unshared _ hmem _ rfl
      · intro buffer hset hdata
        obtain ⟨j, hj⟩ := List.mem_iff_getElem?.mp hset
        rcases Runs.getElem?_set_eq_some hj with ⟨-, rfl⟩ | ⟨hne, hold⟩
        · cases hdata
        · exact hne (h.confined.sole j k _ _ _ hold hbuffer hdata rfl)
  · refine Or.inr ⟨?_, loose_change hchange hloose⟩
    rcases hchange.buffer hbuffer with hkept | rfl
    · exact ⟨length, hkept⟩
    · rw [release, hbuffer]
      exact ⟨length, hbuffer⟩

/-- **Zeros, once released.** The array of a buffer holds what it held at any earlier time
until the buffer is released, and zeros from then on, whatever the callers do. -/
theorem zeroized_iff_released (past rest : List MemoryEvent) {k position length : ℕ}
    {contents : Bytes}
    (hbuffer : (finalState call emptyMemory past).buffers[k]? =
      some ⟨some position, false, length⟩)
    (hfound : (finalState call emptyMemory past).arrays[position]? = some contents) :
    ∃ buffer, (finalState call emptyMemory (past ++ rest)).buffers[k]? = some buffer ∧
      position ∉ (finalState call emptyMemory (past ++ rest)).handles ∧
      (finalState call emptyMemory (past ++ rest)).arrays[position]? =
        some (if buffer.released then List.replicate contents.length 0 else contents) := by
  have hconfined : Confined (finalState call emptyMemory past) :=
    run_changes Change.confined confined_empty past
  have hkeeps : Keeps k position contents (finalState call emptyMemory (past ++ rest)) := by
    rw [finalState, run_append]
    exact run_changes keeps_change ⟨hconfined, Or.inl ⟨length, hbuffer, hfound⟩⟩ rest
  rcases hkeeps.held with ⟨length', hbuffer', hfound'⟩ | ⟨⟨length', hbuffer'⟩, hloose⟩
  · exact ⟨_, hbuffer', hkeeps.confined.unshared _ (List.mem_of_getElem? hbuffer') _ rfl, hfound'⟩
  · exact ⟨_, hbuffer', hloose.not_handle, hloose.found⟩

/-- **What no release overwrites.** The array into which `fromHex` parses keeps the bytes. -/
theorem parsed_text_remains (past rest : List MemoryEvent) (hex : JSString) :
    (finalState call emptyMemory (past ++ .fromHex hex :: rest)).arrays[
        (finalState call emptyMemory past).arrays.length]? =
      some (parsedBytes (cleanDigits hex)) := by
  have hconfined : Confined (finalState call emptyMemory past) :=
    run_changes Change.confined confined_empty past
  have hloose : Loose (finalState call emptyMemory past).arrays.length
      (parsedBytes (cleanDigits hex))
      (newArray (finalState call emptyMemory past) (parsedBytes (cleanDigits hex))) := by
    refine ⟨List.getElem?_concat_length, fun hmem => ?_, fun buffer hbuffer hdata => ?_⟩
    · exact Nat.lt_irrefl _ (hconfined.handle_lt _ hmem)
    · exact Nat.lt_irrefl _ (hconfined.data_lt buffer hbuffer _ hdata)
  have hafter : Loose (finalState call emptyMemory past).arrays.length
      (parsedBytes (cleanDigits hex))
      (call (finalState call emptyMemory past) (.fromHex hex)).1 := by
    rw [call, fromHex]
    dsimp only
    rw [ofArray_eq_own]
    exact loose_change (.own _ _) hloose
  rw [finalState, run_append]
  exact (run_changes loose_change hafter rest).found

/-- A secret is parsed, read, and released. -/
def secretRun : List MemoryEvent := [.fromHex (js "0x0102"), .bytes 0, .writeByte 0 0 255]

theorem zeroized_iff_released_secret :
    ∃ buffer, (finalState call emptyMemory (secretRun ++ [.release 0])).buffers[0]? =
        some buffer ∧
      1 ∉ (finalState call emptyMemory (secretRun ++ [.release 0])).handles ∧
      (finalState call emptyMemory (secretRun ++ [.release 0])).arrays[1]? =
        some (if buffer.released then List.replicate 2 0 else [1, 2]) :=
  @zeroized_iff_released secretRun [.release 0] 0 1 2 [1, 2] rfl rfl

end BioFire.BufferMemory
