import BioFire.ConstantTime
import BioFire.Machines
import BioFire.SecureBuffer

/-!
# The arrays behind secure buffers (`src/lib/security/secure_buffer.ts`)

Arrays are objects here. A `SecureBuffer` keeps the position of its own array; callers hold
others, and may write to them at any time. A call of `use` is two events: what its callback
does lies between them.

* `Confined`, `call_confined`: no caller holds the array of a buffer;
* `buffers_are_values`: no caller can tell the buffers from plain values.
-/

namespace BioFire.BufferMemory

open Runs

/-! ## State -/

structure BufferObject where
  /-- The position of the array. -/
  data : Option ℕ
  released : Bool
  length : ℕ

structure Memory where
  /-- Every `Uint8Array` that was made. -/
  arrays : List Bytes
  buffers : List BufferObject
  /-- The arrays that callers hold. -/
  handles : List ℕ
  /-- The buffers of the calls of `use` that have not ended, the innermost first. -/
  uses : List ℕ

def emptyMemory : Memory := ⟨[], [], [], []⟩

inductive MemoryEvent where
  | newArray (contents : Bytes)
  | writeByte (handle i : ℕ) (b : UInt8)
  | construct (length : ℕ)
  | ofArray (handle : ℕ)
  | fromHex (hex : JSString)
  | bytes (buffer : ℕ)
  | asBigInt (buffer : ℕ)
  | isReleased (buffer : ℕ)
  | equals (buffer other : ℕ)
  | release (buffer : ℕ)
  | use (buffer : ℕ)
  /-- The callback of the innermost `use` returns or throws. -/
  | endUse

/-- What a caller sees of a call; an array is handed over with its contents. -/
inductive Answer where
  | done
  | array (contents : Bytes)
  | bigint (value : ℤ)
  | bool (b : Bool)
  | error (e : JSError)

/-! ## The code -/

/-- `new Uint8Array(contents)`, at the position behind all others. -/
def newArray (m : Memory) (contents : Bytes) : Memory :=
  { m with arrays := m.arrays ++ [contents] }

/-- The array that was made last goes to the callers. -/
def handOut (m : Memory) (contents : Bytes) : Memory :=
  { newArray m contents with handles := m.handles ++ [m.arrays.length] }

/-- `array[i] = b`; beyond the end nothing is written. -/
def writeByte (m : Memory) (position i : ℕ) (b : UInt8) : Memory :=
  { m with arrays := m.arrays.modify position fun contents => contents.set i b }

/-- `array.set(source)` -/
def setBytes (m : Memory) (position : ℕ) (source : Bytes) : Memory :=
  { m with arrays := m.arrays.modify position fun contents =>
      source ++ contents.drop source.length }

/-- `new SecureBuffer(length)` -/
def construct (m : Memory) (length : ℕ) : Memory :=
  { newArray m (List.replicate length 0) with
    buffers := m.buffers ++ [⟨some m.arrays.length, false, length⟩] }

/-- `SecureBuffer.from(data)` -/
def ofArray (m : Memory) (data : Bytes) : Memory :=
  setBytes (construct m data.length) m.arrays.length data

/-- The bytes are parsed into an array of their own first. -/
def fromHex (m : Memory) (hex : JSString) : Memory :=
  let bytes := parsedBytes (cleanDigits hex)
  ofArray (newArray m bytes) bytes

/-- The contents of the copy that the getter `bytes` makes. -/
def contentsOf (m : Memory) (buffer : BufferObject) : Except JSError Bytes :=
  match buffer.data with
  | some position =>
    if buffer.released then
      .error (plainError (js "SecureBuffer: Attempted access after release"))
    else .ok (m.arrays.getD position [])
  | none => .error (plainError (js "SecureBuffer: Attempted access after release"))

def equals (m : Memory) (buffer other : BufferObject) : Bool :=
  if buffer.released || other.released then false
  else
    match buffer.data, other.data with
    | some position, some position' =>
      let data := m.arrays.getD position []
      let data' := m.arrays.getD position' []
      if data.length ≠ data'.length then false else constantTimeEqual data data'
    | _, _ => false

def release (m : Memory) (k : ℕ) : Memory :=
  match m.buffers[k]? with
  | some ⟨some position, false, length⟩ =>
    { m with
      arrays := m.arrays.modify position fun contents => List.replicate contents.length 0
      buffers := m.buffers.set k ⟨none, true, length⟩ }
  | _ => m

/-- A call; one that names nothing does nothing. -/
def call (m : Memory) : MemoryEvent → Memory × Answer
  | .newArray contents => (handOut m contents, .array contents)
  | .writeByte handle i b =>
    match m.handles[handle]? with
    | some position => (writeByte m position i b, .done)
    | none => (m, .done)
  | .construct length => (construct m length, .done)
  | .ofArray handle =>
    match m.handles[handle]? with
    | some position => (ofArray m (m.arrays.getD position []), .done)
    | none => (m, .done)
  | .fromHex hex => (fromHex m hex, .done)
  | .bytes k =>
    match m.buffers[k]?.map (contentsOf m) with
    | some (.ok contents) => (handOut m contents, .array contents)
    | some (.error e) => (m, .error e)
    | none => (m, .done)
  | .asBigInt k =>
    match m.buffers[k]?.map (contentsOf m) with
    | some (.ok contents) => (newArray m contents, .bigint (bytesToBigInt contents))
    | some (.error e) => (m, .error e)
    | none => (m, .done)
  | .isReleased k =>
    match m.buffers[k]? with
    | some buffer => (m, .bool buffer.released)
    | none => (m, .done)
  | .equals k k' =>
    match m.buffers[k]?, m.buffers[k']? with
    | some buffer, some other => (m, .bool (equals m buffer other))
    | _, _ => (m, .done)
  | .release k => (release m k, .done)
  | .use k =>
    match m.buffers[k]?.map (contentsOf m) with
    | some (.ok contents) => ({ handOut m contents with uses := k :: m.uses }, .array contents)
    | some (.error e) => (release m k, .error e)
    | none => (m, .done)
  | .endUse =>
    match m.uses with
    | [] => (m, .done)
    | k :: uses => (release { m with uses } k, .done)

/-! ## Buffers as values -/

/-- Buffers and arrays as values; an array is named by its handle. -/
structure Values where
  buffers : List SecureBuffer
  arrays : List Bytes
  uses : List ℕ

/-- The same calls on values. -/
def valueCall (v : Values) : MemoryEvent → Values × Answer
  | .newArray contents => ({ v with arrays := v.arrays ++ [contents] }, .array contents)
  | .writeByte handle i b =>
    ({ v with arrays := v.arrays.modify handle fun contents => contents.set i b }, .done)
  | .construct length =>
    ({ v with buffers := v.buffers ++ [.ofBytes (List.replicate length 0)] }, .done)
  | .ofArray handle =>
    match v.arrays[handle]? with
    | some contents => ({ v with buffers := v.buffers ++ [.ofBytes contents] }, .done)
    | none => (v, .done)
  | .fromHex hex => ({ v with buffers := v.buffers ++ [.fromHex hex] }, .done)
  | .bytes k =>
    match v.buffers[k]?.map SecureBuffer.bytes with
    | some (.ok contents) => ({ v with arrays := v.arrays ++ [contents] }, .array contents)
    | some (.error e) => (v, .error e)
    | none => (v, .done)
  | .asBigInt k =>
    match v.buffers[k]?.map SecureBuffer.asBigInt with
    | some (.ok value) => (v, .bigint value)
    | some (.error e) => (v, .error e)
    | none => (v, .done)
  | .isReleased k =>
    match v.buffers[k]? with
    | some buffer => (v, .bool buffer.released)
    | none => (v, .done)
  | .equals k k' =>
    match v.buffers[k]?, v.buffers[k']? with
    | some buffer, some other => (v, .bool (buffer.data.isSome && buffer.data = other.data))
    | _, _ => (v, .done)
  | .release k => ({ v with buffers := v.buffers.modify k SecureBuffer.release }, .done)
  | .use k =>
    match v.buffers[k]?.map SecureBuffer.bytes with
    | some (.ok contents) =>
      ({ v with arrays := v.arrays ++ [contents], uses := k :: v.uses }, .array contents)
    | some (.error e) => (v, .error e)
    | none => (v, .done)
  | .endUse =>
    match v.uses with
    | [] => (v, .done)
    | k :: uses => ({ v with buffers := v.buffers.modify k SecureBuffer.release, uses }, .done)

/-- The value of a buffer in memory. -/
def bufferValue (arrays : List Bytes) (buffer : BufferObject) : SecureBuffer :=
  match buffer.data with
  | some position => ⟨some (arrays.getD position []), false, buffer.length, rfl⟩
  | none => ⟨none, true, buffer.length, rfl⟩

def valuesOf (m : Memory) : Values where
  buffers := m.buffers.map (bufferValue m.arrays)
  arrays := m.handles.map fun position => m.arrays.getD position []
  uses := m.uses

/-! ## Who holds an array -/

/-- No caller holds the array of a buffer, and no two buffers share one. -/
structure Confined (m : Memory) : Prop where
  released : ∀ buffer ∈ m.buffers, buffer.released = buffer.data.isNone
  handle_lt : ∀ position ∈ m.handles, position < m.arrays.length
  handle_nodup : m.handles.Nodup
  data_lt : ∀ buffer ∈ m.buffers, ∀ position ∈ buffer.data, position < m.arrays.length
  unshared : ∀ buffer ∈ m.buffers, ∀ position ∈ buffer.data, position ∉ m.handles
  sole : ∀ (k k' : ℕ) (buffer buffer' : BufferObject) position, m.buffers[k]? = some buffer →
    m.buffers[k']? = some buffer' → position ∈ buffer.data → position ∈ buffer'.data → k = k'

theorem confined_empty : Confined emptyMemory where
  released _ h := absurd h List.not_mem_nil
  handle_lt _ h := absurd h List.not_mem_nil
  handle_nodup := List.nodup_nil
  data_lt _ h := absurd h List.not_mem_nil
  unshared _ h := absurd h List.not_mem_nil
  sole k k' buffer buffer' position h := by cases h

/-- A new buffer with a new array. -/
def own (m : Memory) (contents : Bytes) : Memory :=
  { newArray m contents with
    buffers := m.buffers ++ [⟨some m.arrays.length, false, contents.length⟩] }

theorem construct_eq_own (m : Memory) (length : ℕ) :
    construct m length = own m (List.replicate length 0) := by
  rw [construct, own, List.length_replicate]

theorem ofArray_eq_own (m : Memory) (data : Bytes) : ofArray m data = own m data := by
  have hset : (m.arrays ++ [List.replicate data.length 0]).modify m.arrays.length
      (fun contents => data ++ contents.drop data.length) = m.arrays ++ [data] := by
    rw [List.modify_eq_set_getElem?, List.getElem?_concat_length]
    simp
  rw [ofArray, construct, setBytes, own, newArray]
  dsimp only
  rw [hset]
  rfl

section

variable {m : Memory}

theorem getD_concat {arrays : List Bytes} {position : ℕ} (h : position < arrays.length)
    (contents : Bytes) : (arrays ++ [contents]).getD position [] = arrays.getD position [] := by
  rw [List.getD_append _ _ _ _ h]

theorem getD_modify_ne {arrays : List Bytes} {position position' : ℕ} (h : position' ≠ position)
    (f : Bytes → Bytes) : (arrays.modify position f).getD position' [] =
      arrays.getD position' [] := by
  rw [List.getD_eq_getElem?_getD, List.getElem?_modify, List.getD_eq_getElem?_getD]
  simp [Ne.symm h]

theorem bufferValue_congr {arrays arrays' : List Bytes} {buffer : BufferObject}
    (h : ∀ position ∈ buffer.data, arrays'.getD position [] = arrays.getD position []) :
    bufferValue arrays' buffer = bufferValue arrays buffer := by
  rw [bufferValue, bufferValue]
  cases hdata : buffer.data with
  | none => rfl
  | some position =>
    have hsame := h position hdata
    dsimp only
    simp only [hsame]

theorem Confined.newArray (h : Confined m) (contents : Bytes) : Confined (newArray m contents) where
  released := h.released
  handle_lt position hmem := by
    have hlt := h.handle_lt position hmem
    rw [BufferMemory.newArray, List.length_append, List.length_singleton]
    omega
  handle_nodup := h.handle_nodup
  data_lt buffer hbuffer position hdata := by
    have hlt := h.data_lt buffer hbuffer position hdata
    rw [BufferMemory.newArray, List.length_append, List.length_singleton]
    omega
  unshared := h.unshared
  sole := h.sole

theorem valuesOf_newArray (h : Confined m) (contents : Bytes) :
    valuesOf (newArray m contents) = valuesOf m := by
  have hbuffers : m.buffers.map (bufferValue (m.arrays ++ [contents])) =
      m.buffers.map (bufferValue m.arrays) := by
    refine List.map_congr_left fun buffer hbuffer => bufferValue_congr fun position hdata => ?_
    exact getD_concat (h.data_lt buffer hbuffer position hdata) contents
  have harrays : m.handles.map (fun position => (m.arrays ++ [contents]).getD position []) =
      m.handles.map fun position => m.arrays.getD position [] := by
    refine List.map_congr_left fun position hmem => ?_
    exact getD_concat (h.handle_lt position hmem) contents
  rw [valuesOf, valuesOf, newArray]
  dsimp only
  rw [hbuffers, harrays]

theorem Confined.handOut (h : Confined m) (contents : Bytes) : Confined (handOut m contents) := by
  have hnew := h.newArray contents
  refine { hnew with handle_lt := ?_, handle_nodup := ?_, unshared := ?_ }
  · intro position hmem
    rcases List.mem_append.mp hmem with hold | hlast
    · exact hnew.handle_lt position hold
    · obtain rfl := List.mem_singleton.mp hlast
      simp [BufferMemory.handOut, BufferMemory.newArray]
  · refine List.nodup_append.mpr ⟨h.handle_nodup, List.nodup_singleton _, ?_⟩
    rintro position hmem _ hlast rfl
    obtain rfl := List.mem_singleton.mp hlast
    exact Nat.lt_irrefl _ (h.handle_lt _ hmem)
  · intro buffer hbuffer position hdata hmem
    rcases List.mem_append.mp hmem with hold | hlast
    · exact h.unshared buffer hbuffer position hdata hold
    · obtain rfl := List.mem_singleton.mp hlast
      exact Nat.lt_irrefl _ (h.data_lt buffer hbuffer _ hdata)

theorem valuesOf_handOut (h : Confined m) (contents : Bytes) :
    valuesOf (handOut m contents) =
      { valuesOf m with arrays := (valuesOf m).arrays ++ [contents] } := by
  have hnew := valuesOf_newArray h contents
  rw [valuesOf, newArray, Values.mk.injEq] at hnew
  obtain ⟨hbuffers, harrays, -⟩ := hnew
  rw [valuesOf, handOut, newArray]
  dsimp only at hbuffers harrays ⊢
  rw [hbuffers, List.map_append, harrays]
  simp [valuesOf]

theorem Confined.own (h : Confined m) (contents : Bytes) : Confined (own m contents) := by
  have hnew := h.newArray contents
  have hmember : ∀ buffer ∈ (BufferMemory.own m contents).buffers, buffer ∈ m.buffers ∨
      buffer = ⟨some m.arrays.length, false, contents.length⟩ := by
    intro buffer hbuffer
    rcases List.mem_append.mp hbuffer with hold | hlast
    · exact Or.inl hold
    · exact Or.inr (List.mem_singleton.mp hlast)
  refine { hnew with released := ?_, data_lt := ?_, unshared := ?_, sole := ?_ }
  · intro buffer hbuffer
    rcases hmember buffer hbuffer with hold | rfl
    · exact h.released buffer hold
    · rfl
  · intro buffer hbuffer position hdata
    rcases hmember buffer hbuffer with hold | rfl
    · exact hnew.data_lt buffer hold position hdata
    · cases hdata
      simp [BufferMemory.own, BufferMemory.newArray]
  · intro buffer hbuffer position hdata hmem
    rcases hmember buffer hbuffer with hold | rfl
    · exact h.unshared buffer hold position hdata hmem
    · cases hdata
      exact Nat.lt_irrefl _ (h.handle_lt _ hmem)
  · intro k k' buffer buffer' position hk hk' hdata hdata'
    have hlt : ∀ {j : ℕ} {b : BufferObject}, m.buffers[j]? = some b → position ∈ b.data →
        position < m.arrays.length := fun hj hb => h.data_lt _ (List.mem_of_getElem? hj) _ hb
    rcases Runs.getElem?_concat_eq_some hk with hold | ⟨rfl, rfl⟩ <;>
      rcases Runs.getElem?_concat_eq_some hk' with hold' | ⟨rfl, rfl⟩
    · exact h.sole k k' buffer buffer' position hold hold' hdata hdata'
    · cases hdata'
      exact absurd (hlt hold hdata) (Nat.lt_irrefl _)
    · cases hdata
      exact absurd (hlt hold' hdata') (Nat.lt_irrefl _)
    · rfl

theorem valuesOf_own (h : Confined m) (contents : Bytes) :
    valuesOf (own m contents) =
      { valuesOf m with buffers := (valuesOf m).buffers ++ [.ofBytes contents] } := by
  have hnew := valuesOf_newArray h contents
  rw [valuesOf, newArray, Values.mk.injEq] at hnew
  obtain ⟨hbuffers, harrays, -⟩ := hnew
  rw [valuesOf, own, newArray]
  dsimp only at hbuffers harrays ⊢
  rw [harrays, List.map_append, hbuffers]
  simp [valuesOf, bufferValue, SecureBuffer.ofBytes]

theorem Confined.writeByte (h : Confined m) (position i : ℕ) (b : UInt8) :
    Confined (writeByte m position i b) where
  released := h.released
  handle_lt position' hmem := by
    rw [BufferMemory.writeByte, List.length_modify]
    exact h.handle_lt position' hmem
  handle_nodup := h.handle_nodup
  data_lt buffer hbuffer position' hdata := by
    rw [BufferMemory.writeByte, List.length_modify]
    exact h.data_lt buffer hbuffer position' hdata
  unshared := h.unshared
  sole := h.sole

/-- A write through a handle is a write to the array of the handle. -/
theorem valuesOf_writeByte (h : Confined m) {handle position : ℕ}
    (hhandle : m.handles[handle]? = some position) (i : ℕ) (b : UInt8) :
    valuesOf (writeByte m position i b) = { valuesOf m with
      arrays := (valuesOf m).arrays.modify handle fun contents => contents.set i b } := by
  have hmem := List.mem_of_getElem? hhandle
  have hbuffers : (valuesOf (writeByte m position i b)).buffers = (valuesOf m).buffers := by
    refine List.map_congr_left fun buffer hbuffer => bufferValue_congr fun position' hdata => ?_
    refine getD_modify_ne ?_ _
    rintro rfl
    exact h.unshared buffer hbuffer _ hdata hmem
  have harrays : (valuesOf (writeByte m position i b)).arrays =
      (valuesOf m).arrays.modify handle fun contents => contents.set i b := by
    refine List.ext_getElem? fun k => ?_
    rw [List.getElem?_modify, valuesOf, valuesOf, List.getElem?_map, List.getElem?_map]
    change Option.map _ m.handles[k]? = _
    cases hk : m.handles[k]? with
    | none => rfl
    | some position' =>
      by_cases hsame : handle = k
      · subst hsame
        obtain rfl := Option.some.inj (hhandle.symm.trans hk)
        have hlt := h.handle_lt position hmem
        simp [BufferMemory.writeByte, List.getD_eq_getElem?_getD, List.getElem?_eq_getElem hlt]
      · have hne : position' ≠ position := by
          rintro rfl
          exact hsame ((List.getElem?_inj (List.getElem?_eq_some_iff.mp hhandle).1
            h.handle_nodup).mp (hhandle.trans hk.symm))
        simp only [Option.map_some, Option.map_eq_map, if_neg hsame]
        exact congrArg some (getD_modify_ne hne _)
  change Values.mk _ _ _ = Values.mk _ _ _
  rw [← hbuffers, ← harrays]
  rfl

/-- What a release does: nothing to a buffer without an array. -/
theorem release_cases (m : Memory) (k : ℕ) :
    (∀ buffer ∈ m.buffers[k]?, buffer.released = true ∨ buffer.data = none) ∧ release m k = m ∨
      ∃ position length, m.buffers[k]? = some ⟨some position, false, length⟩ ∧
        release m k = { m with
          arrays := m.arrays.modify position fun contents => List.replicate contents.length 0
          buffers := m.buffers.set k ⟨none, true, length⟩ } := by
  rw [release]
  split
  next position length hbuffer => exact Or.inr ⟨position, length, hbuffer, rfl⟩
  next hother =>
    refine Or.inl ⟨fun buffer hbuffer => ?_, rfl⟩
    obtain ⟨data, released, length⟩ := buffer
    cases data with
    | none => exact Or.inr rfl
    | some position =>
      cases released with
      | true => exact Or.inl rfl
      | false => exact absurd hbuffer (hother position length)

theorem Confined.release (h : Confined m) (k : ℕ) : Confined (release m k) := by
  rcases release_cases m k with ⟨-, hsame⟩ | ⟨position, length, hbuffer, hrelease⟩
  · rwa [hsame]
  rw [hrelease]
  have hmember : ∀ buffer ∈ m.buffers.set k ⟨none, true, length⟩, buffer ∈ m.buffers ∨
      buffer = ⟨none, true, length⟩ := fun buffer => List.mem_or_eq_of_mem_set
  refine ⟨?_, ?_, h.handle_nodup, ?_, ?_, ?_⟩
  · intro buffer hbuffer
    rcases hmember buffer hbuffer with hold | rfl
    · exact h.released buffer hold
    · rfl
  · intro position' hmem
    rw [List.length_modify]
    exact h.handle_lt position' hmem
  · intro buffer hbuffer position' hdata
    rw [List.length_modify]
    rcases hmember buffer hbuffer with hold | rfl
    · exact h.data_lt buffer hold position' hdata
    · cases hdata
  · intro buffer hbuffer position' hdata
    rcases hmember buffer hbuffer with hold | rfl
    · exact h.unshared buffer hold position' hdata
    · cases hdata
  · intro j j' buffer buffer' position' hj hj' hdata hdata'
    rcases Runs.getElem?_set_eq_some hj with ⟨-, rfl⟩ | ⟨-, hold⟩
    · cases hdata
    · rcases Runs.getElem?_set_eq_some hj' with ⟨-, rfl⟩ | ⟨-, hold'⟩
      · cases hdata'
      · exact h.sole j j' buffer buffer' position' hold hold' hdata hdata'

/-- A release is a release of the value; a buffer that has none keeps it. -/
theorem valuesOf_release (h : Confined m) (k : ℕ) :
    valuesOf (release m k) = { valuesOf m with
      buffers := (valuesOf m).buffers.modify k SecureBuffer.release } := by
  have hnone : ∀ {arrays : List Bytes} {buffer : BufferObject}, buffer.data = none →
      (bufferValue arrays buffer).release = bufferValue arrays buffer := by
    intro arrays buffer hdata
    rw [bufferValue, hdata]
    rfl
  rcases release_cases m k with ⟨hgone, hsame⟩ | ⟨position, length, hbuffer, hrelease⟩
  · rw [hsame]
    have hmodify : (valuesOf m).buffers.modify k SecureBuffer.release = (valuesOf m).buffers := by
      refine List.ext_getElem? fun j => ?_
      rw [List.getElem?_modify, valuesOf, List.getElem?_map]
      cases hj : m.buffers[j]? with
      | none => rfl
      | some buffer =>
        by_cases hkj : k = j
        · subst hkj
          have hdata : buffer.data = none := by
            rcases hgone buffer hj with hreleased | hdata
            · rw [h.released buffer (List.mem_of_getElem? hj), Option.isNone_iff_eq_none]
                at hreleased
              exact hreleased
            · exact hdata
          simp [hnone hdata]
        · simp [hkj]
    rw [hmodify]
  · have hbuffers : (valuesOf (release m k)).buffers =
        (valuesOf m).buffers.modify k SecureBuffer.release := by
      rw [hrelease]
      refine List.ext_getElem? fun j => ?_
      rw [List.getElem?_modify, valuesOf, valuesOf, List.getElem?_map, List.getElem?_map]
      dsimp only
      by_cases hkj : k = j
      · subst hkj
        rw [List.getElem?_set_self (List.getElem?_eq_some_iff.mp hbuffer).1, hbuffer]
        simp [bufferValue, SecureBuffer.release]
      · rw [List.getElem?_set_ne hkj]
        cases hj : m.buffers[j]? with
        | none => rfl
        | some buffer =>
          simp only [Option.map_some, Option.map_eq_map, if_neg hkj]
          refine congrArg some (bufferValue_congr fun position' hdata => getD_modify_ne ?_ _)
          rintro rfl
          exact hkj (h.sole k j _ buffer _ hbuffer hj rfl hdata)
    have harrays : (valuesOf (release m k)).arrays = (valuesOf m).arrays := by
      rw [hrelease]
      refine List.map_congr_left fun position' hmem => getD_modify_ne ?_ _
      rintro rfl
      exact h.unshared _ (List.mem_of_getElem? hbuffer) _ rfl hmem
    have huses : (valuesOf (release m k)).uses = (valuesOf m).uses := by
      rw [hrelease]
      rfl
    change Values.mk _ _ _ = Values.mk _ _ _
    rw [← hbuffers, ← harrays, ← huses]
    rfl

/-! ## Reading -/

theorem contentsOf_eq (h : Confined m) {buffer : BufferObject} (hbuffer : buffer ∈ m.buffers) :
    contentsOf m buffer = (bufferValue m.arrays buffer).bytes := by
  have hreleased := h.released buffer hbuffer
  rw [contentsOf, bufferValue]
  cases hdata : buffer.data with
  | none => rfl
  | some position =>
    rw [hdata] at hreleased
    dsimp only
    rw [hreleased]
    rfl

theorem getElem?_contentsOf (h : Confined m) (k : ℕ) :
    m.buffers[k]?.map (contentsOf m) = (valuesOf m).buffers[k]?.map SecureBuffer.bytes := by
  rw [valuesOf, List.getElem?_map]
  cases hk : m.buffers[k]? with
  | none => rfl
  | some buffer => exact congrArg some (contentsOf_eq h (List.mem_of_getElem? hk))

theorem equals_eq (h : Confined m) {buffer other : BufferObject} (hbuffer : buffer ∈ m.buffers)
    (hother : other ∈ m.buffers) :
    equals m buffer other = ((bufferValue m.arrays buffer).data.isSome &&
      (bufferValue m.arrays buffer).data = (bufferValue m.arrays other).data) := by
  rw [equals, h.released buffer hbuffer, h.released other hother, bufferValue, bufferValue]
  cases hdata : buffer.data with
  | none => rfl
  | some position =>
    cases hdata' : other.data with
    | none => rfl
    | some position' =>
      simp only [Option.isNone_some, Bool.or_self, Bool.false_eq_true, if_false,
        Option.isSome_some, Bool.true_and, Option.some.injEq]
      rw [Bool.eq_iff_iff, decide_eq_true_iff]
      split
      next hlength =>
        refine iff_of_false (by simp) fun heq => hlength ?_
        rw [heq]
      next => exact constantTimeEqual_iff

/-! ## Every call -/

theorem getElem?_handles (m : Memory) (handle : ℕ) :
    (valuesOf m).arrays[handle]? =
      m.handles[handle]?.map fun position => m.arrays.getD position [] := by
  rw [valuesOf, List.getElem?_map]

theorem Confined.withUses (h : Confined m) (uses : List ℕ) : Confined { m with uses } :=
  ⟨h.released, h.handle_lt, h.handle_nodup, h.data_lt, h.unshared, h.sole⟩

/-- **Every call** keeps the arrays of the buffers to the buffers, and does to the values
what it does to the objects. -/
theorem call_confined (h : Confined m) (event : MemoryEvent) :
    Confined (call m event).1 ∧
      valueCall (valuesOf m) event = (valuesOf (call m event).1, (call m event).2) := by
  cases event with
  | newArray contents => exact ⟨h.handOut contents, by rw [call, valuesOf_handOut h]; rfl⟩
  | writeByte handle i b =>
    rw [call]
    cases hhandle : m.handles[handle]? with
    | none =>
      refine ⟨h, ?_⟩
      have hbeyond : (valuesOf m).arrays.length ≤ handle := by
        rw [← List.getElem?_eq_none_iff, getElem?_handles, hhandle]
        rfl
      rw [valueCall, List.modify_eq_self hbeyond]
    | some position =>
      refine ⟨h.writeByte position i b, ?_⟩
      dsimp only
      rw [valuesOf_writeByte h hhandle]
      rfl
  | construct length =>
    rw [call, construct_eq_own]
    exact ⟨h.own _, by rw [valuesOf_own h]; rfl⟩
  | ofArray handle =>
    rw [call, valueCall, getElem?_handles]
    cases m.handles[handle]? with
    | none => exact ⟨h, rfl⟩
    | some position =>
      dsimp only
      rw [ofArray_eq_own]
      exact ⟨h.own _, by rw [valuesOf_own h]; rfl⟩
  | fromHex hex =>
    have hnew := h.newArray (parsedBytes (cleanDigits hex))
    rw [call, fromHex]
    dsimp only
    rw [ofArray_eq_own]
    refine ⟨hnew.own _, ?_⟩
    rw [valuesOf_own hnew, valuesOf_newArray h]
    rfl
  | bytes k =>
    rw [call, valueCall, ← getElem?_contentsOf h]
    cases m.buffers[k]?.map (contentsOf m) with
    | none => exact ⟨h, rfl⟩
    | some result =>
      cases result with
      | error e => exact ⟨h, rfl⟩
      | ok contents => exact ⟨h.handOut contents, by rw [valuesOf_handOut h]⟩
  | asBigInt k =>
    have hvalue : (valuesOf m).buffers[k]?.map SecureBuffer.asBigInt =
        (m.buffers[k]?.map (contentsOf m)).map fun result => result.map bytesToBigInt := by
      rw [getElem?_contentsOf h, Option.map_map]
      refine congrArg (fun f => Option.map f _) (funext fun buffer => ?_)
      cases hbytes : buffer.bytes with
      | error e => simp [SecureBuffer.asBigInt, hbytes, Except.map, bind, Except.bind]
      | ok contents =>
        simp [SecureBuffer.asBigInt, hbytes, Except.map, bind, Except.bind, pure, Except.pure]
    rw [call, valueCall, hvalue]
    cases m.buffers[k]?.map (contentsOf m) with
    | none => exact ⟨h, rfl⟩
    | some result =>
      cases result with
      | error e => exact ⟨h, rfl⟩
      | ok contents => exact ⟨h.newArray contents, by rw [valuesOf_newArray h]; rfl⟩
  | isReleased k =>
    rw [call, valueCall, valuesOf, List.getElem?_map]
    cases hk : m.buffers[k]? with
    | none => exact ⟨h, rfl⟩
    | some buffer =>
      refine ⟨h, ?_⟩
      have hreleased := h.released buffer (List.mem_of_getElem? hk)
      have hvalue : (bufferValue m.arrays buffer).released = buffer.released := by
        rw [hreleased, bufferValue]
        cases buffer.data with
        | none => rfl
        | some position => rfl
      simp only [Option.map_some, hvalue]
      rfl
  | equals k k' =>
    rw [call, valueCall, valuesOf, List.getElem?_map, List.getElem?_map]
    cases hk : m.buffers[k]? with
    | none => exact ⟨h, rfl⟩
    | some buffer =>
      cases hk' : m.buffers[k']? with
      | none => exact ⟨h, rfl⟩
      | some other =>
        refine ⟨h, ?_⟩
        dsimp only [Option.map_some]
        rw [equals_eq h (List.mem_of_getElem? hk) (List.mem_of_getElem? hk')]
        rfl
  | release k => exact ⟨h.release k, by rw [call, valuesOf_release h]; rfl⟩
  | use k =>
    rw [call, valueCall, ← getElem?_contentsOf h]
    cases hk : m.buffers[k]?.map (contentsOf m) with
    | none => exact ⟨h, rfl⟩
    | some result =>
      cases result with
      | error e =>
        have hsame : release m k = m := by
          rcases release_cases m k with ⟨-, hsame⟩ | ⟨position, length, hbuffer, -⟩
          · exact hsame
          · rw [hbuffer] at hk
            cases hk
        dsimp only
        rw [hsame]
        exact ⟨h, rfl⟩
      | ok contents =>
        refine ⟨(h.handOut contents).withUses _, ?_⟩
        have hvalues := valuesOf_handOut h contents
        rw [valuesOf, valuesOf, Values.mk.injEq] at hvalues
        obtain ⟨hbuffers, harrays, -⟩ := hvalues
        dsimp only
        rw [valuesOf, valuesOf, hbuffers, harrays]
  | endUse =>
    have huses : (valuesOf m).uses = m.uses := rfl
    rw [call, valueCall, huses]
    cases m.uses with
    | nil => exact ⟨h, rfl⟩
    | cons k uses =>
      refine ⟨(h.withUses uses).release k, ?_⟩
      dsimp only
      rw [valuesOf_release (h.withUses uses)]
      rfl

/-- **Buffers are values.** Whatever callers do with the arrays that they hold, no answer
tells the buffers from values that only a release changes. -/
theorem buffers_are_values (events : List MemoryEvent) :
    answers call emptyMemory events = answers valueCall ⟨[], [], []⟩ events ∧
      valuesOf (finalState call emptyMemory events) =
        finalState valueCall ⟨[], [], []⟩ events := by
  have hcall : ∀ m v event, Confined m ∧ valuesOf m = v →
      (Confined (call m event).1 ∧ valuesOf (call m event).1 = (valueCall v event).1) ∧
        (call m event).2 = (valueCall v event).2 := by
    rintro m v event ⟨hconfined, rfl⟩
    obtain ⟨hnext, hvalue⟩ := call_confined hconfined event
    rw [hvalue]
    exact ⟨⟨hnext, rfl⟩, rfl⟩
  obtain ⟨⟨-, hvalues⟩, hanswers⟩ :=
    simulation (fun m v => Confined m ∧ valuesOf m = v) hcall ⟨confined_empty, rfl⟩ events
  exact ⟨hanswers, hvalues⟩

end

end BioFire.BufferMemory
