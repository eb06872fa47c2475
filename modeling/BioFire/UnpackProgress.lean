import BioFire.UnpackBounds

/-!
# Progress of `unpack`, read off the headers

A field is read to its end when its header passes the checks, its type byte is known,
a 64-bit number has its eight bytes and a container has nothing in it. Where the
cursor goes is therefore a matter of the header bytes alone.

* `decodeScalar_ok_iff`: which type bytes and value bytes are read without an error;
* `cursorMove_iff`: where a call that returns puts the cursor;
* `unpack_progress_iff`: `unpack` ends with every call moving forward exactly when no
  field that its headers lead to is readable and declares a length that takes the cursor back.
-/

namespace BioFire.BinarySerializer

open Outcome

/-! ## Headers of fields that are read -/

/-- The type bytes whose values are read without a loop. -/
def scalarTypes : List UInt8 :=
  [FIELD_TYPES.UINT8, FIELD_TYPES.UINT16, FIELD_TYPES.UINT32, FIELD_TYPES.UINT64,
    FIELD_TYPES.BIG_INT, FIELD_TYPES.BYTES, FIELD_TYPES.STRING, FIELD_TYPES.BOOL]

/-- A value that is read: one of a type without a loop, of eight bytes at least if it is a
64-bit number, or a container with nothing in it. -/
def Readable (h : FieldHeader) : Prop :=
  (∃ t ∈ scalarTypes, h.typeByte = some t ∧
      (t = FIELD_TYPES.UINT64 → 8 ≤ h.valueBytes.length)) ∨
    (h.typeByte = some FIELD_TYPES.ARRAY ∨ h.typeByte = some FIELD_TYPES.MAP) ∧
      h.valueBytes = []

/-- The header at `o` puts the cursor at `o'`. -/
def HeaderMove (items : Bytes) (o o' : Int) : Prop :=
  ∃ h, fieldHeader items o = .ok h ∧ Readable h ∧ h.newOffset = o'

/-- A field that the headers of `payload` lead to: one of the top level or inside a
container, with readable fields in front of it. -/
def HeaderReached (sha256 : Bytes → Digest) (payload : Bytes) (buffer : Bytes) (offset : Int) :
    Prop :=
  ∃ h o, payloadHeader sha256 payload = .ok h ∧
    FieldFrom HeaderMove payload h.fieldCount h.offset o ∧
    FieldIn HeaderMove payload o buffer offset

/-- A readable field that declares, as a signed 32-bit number, a length that takes the cursor
back to the start of the field or before it. -/
def MovesBack (buffer : Bytes) (offset : Int) : Prop :=
  ∃ h, fieldHeader buffer offset = .ok h ∧ Readable h ∧ h.keyLen + h.valueLen ≤ -6

/-! ## What is read -/

theorem decodeScalar_ok_iff {typeByte : Option UInt8} {valueBytes : Bytes} :
    (∃ v, decodeScalar typeByte valueBytes = some (.ok v)) ↔
      ∃ t ∈ scalarTypes, typeByte = some t ∧
        (t = FIELD_TYPES.UINT64 → 8 ≤ valueBytes.length) := by
  by_cases h64 : typeByte = some FIELD_TYPES.UINT64
  · subst h64
    constructor
    · rintro ⟨v, hv⟩
      refine ⟨_, by simp [scalarTypes], rfl, fun _ => ?_⟩
      by_contra hshort
      have herror := Option.some.inj hv
      rw [decodeUint64_short 0 (not_le.mp hshort)] at herror
      cases herror
    · rintro ⟨t, -, ht, hlength⟩
      obtain ⟨n, hn⟩ := decodeUint64_full 0 (hlength (Option.some.inj ht).symm)
      have hread : decodeScalar (some FIELD_TYPES.UINT64) valueBytes =
          some ((decodeUint64 valueBytes 8 0).map .bigint) := rfl
      exact ⟨.bigint n, by rw [hread, hn]; rfl⟩
  · constructor
    · rintro ⟨v, hv⟩
      by_contra hnone
      have hne : ∀ t ∈ scalarTypes, typeByte ≠ some t := fun t ht htype =>
        hnone ⟨t, ht, htype, fun h => absurd (h ▸ htype) h64⟩
      simp only [scalarTypes, List.forall_mem_cons] at hne
      obtain ⟨h₁, h₂, h₃, h₄, h₅, h₆, h₇, h₈, -⟩ := hne
      simp only [decodeScalar, h₁, h₂, h₃, h₄, h₅, h₆, h₇, h₈, if_false] at hv
      split at hv
      · cases hv
      · cases hv
    · rintro ⟨t, ht, rfl, -⟩
      simp only [scalarTypes, List.mem_cons, List.not_mem_nil, or_false] at ht
      rcases ht with rfl | rfl | rfl | rfl | rfl | rfl | rfl | rfl
      all_goals first
        | exact absurd rfl h64
        | exact ⟨_, rfl⟩

/-- What a field is read as: a branch without a loop, or an empty container. -/
theorem fieldReturns_value {payload : Bytes} {offset : Int} {h : FieldHeader} {d : DecodedField}
    (hh : fieldHeader payload offset = .ok h) (hd : FieldReturns payload offset d) :
    d.key = h.key ∧ d.newOffset = h.newOffset ∧
      (decodeScalar h.typeByte h.valueBytes = some (.ok d.value) ∨
        h.valueBytes = [] ∧ (h.typeByte = some FIELD_TYPES.ARRAY ∧ d.value = .array [] ∨
          h.typeByte = some FIELD_TYPES.MAP ∧ d.value = .map [])) := by
  obtain ⟨h', hh', hkey, hoffset, n, hvalue⟩ := fieldReturns_iff.mp hd
  obtain rfl := Except.ok.inj (hh'.symm.trans hh)
  refine ⟨hkey, hoffset, ?_⟩
  cases hscalar : decodeScalar h'.typeByte h'.valueBytes with
  | some r =>
    simp only [decodeValue, hscalar] at hvalue
    rw [ofExcept_eq_returns hvalue]
    exact Or.inl rfl
  | none =>
    have htype := decodeScalar_eq_none_iff.mp hscalar
    have hempty : h'.valueBytes = [] := by
      by_contra hne
      exact LoopCall.not_returns (.first (List.length_pos_iff.mpr hne)) ⟨h', hh, rfl, htype⟩ hd
    refine Or.inr ⟨hempty, ?_⟩
    simp only [decodeValue, hscalar] at hvalue
    rw [hempty] at hvalue
    split at hvalue
    next harray =>
      cases n with
      | zero => cases hvalue
      | succ n =>
        exact Or.inl ⟨harray, (returns.inj hvalue).symm⟩
    next harray =>
      cases n with
      | zero => cases hvalue
      | succ n =>
        exact Or.inr ⟨htype.resolve_left harray, (returns.inj hvalue).symm⟩

theorem fieldReturns_of_readable {buffer : Bytes} {offset : Int} {h : FieldHeader}
    (hh : fieldHeader buffer offset = .ok h) (hread : Readable h) :
    ∃ d, FieldReturns buffer offset d ∧ d.newOffset = h.newOffset := by
  obtain ⟨v, hv⟩ : ∃ v, Returns
      (fun fuel => decodeValue (decodeField fuel) fuel h.typeByte h.valueBytes) v := by
    rcases hread with hscalar | ⟨htype, hempty⟩
    · obtain ⟨v, hv⟩ := decodeScalar_ok_iff.mpr hscalar
      exact ⟨v, 0, by simp only [decodeValue, hv, ofExcept_ok]⟩
    · simp only [decodeValue, decodeScalar_eq_none_iff.mpr htype, hempty]
      split
      · exact ⟨.array [], 1, rfl⟩
      · exact ⟨.map [], 1, rfl⟩
  exact ⟨⟨h.key, v, h.newOffset⟩, fieldReturns_iff.mpr ⟨h, hh, rfl, rfl, hv⟩, rfl⟩

theorem readable_of_fieldReturns {buffer : Bytes} {offset : Int} {h : FieldHeader}
    {d : DecodedField} (hh : fieldHeader buffer offset = .ok h)
    (hd : FieldReturns buffer offset d) : Readable h := by
  obtain ⟨-, -, hvalue | ⟨hempty, htype⟩⟩ := fieldReturns_value hh hd
  · exact Or.inl (decodeScalar_ok_iff.mp ⟨_, hvalue⟩)
  · exact Or.inr ⟨htype.imp And.left And.left, hempty⟩

/-- **Where the cursor goes** is written in the header. -/
theorem cursorMove_iff {items : Bytes} {o o' : Int} :
    CursorMove items o o' ↔ HeaderMove items o o' := by
  constructor
  · rintro ⟨d, hd, rfl⟩
    obtain ⟨h, hh, -, hoffset, -⟩ := fieldReturns_iff.mp hd
    exact ⟨h, hh, readable_of_fieldReturns hh hd, hoffset.symm⟩
  · rintro ⟨h, hh, hread, rfl⟩
    exact fieldReturns_of_readable hh hread

theorem stalls_iff {buffer : Bytes} {offset : Int} :
    Stalls buffer offset ↔ MovesBack buffer offset := by
  constructor
  · rintro ⟨h, hh, hback, value, hvalue⟩
    have hd : FieldReturns buffer offset ⟨h.key, value, h.newOffset⟩ :=
      fieldReturns_iff.mpr ⟨h, hh, rfl, rfl, hvalue⟩
    exact ⟨h, hh, readable_of_fieldReturns hh hd, hback⟩
  · rintro ⟨h, hh, hread, hback⟩
    obtain ⟨d, hd, -⟩ := fieldReturns_of_readable hh hread
    obtain ⟨h', hh', -, -, hvalue⟩ := fieldReturns_iff.mp hd
    obtain rfl := Except.ok.inj (hh'.symm.trans hh)
    exact ⟨h', hh, hback, d.value, hvalue⟩

/-- The calls of one run are the fields that the headers lead to. -/
theorem unpackCall_iff {sha256 : Bytes → Digest} {payload buffer : Bytes} {offset : Int} :
    UnpackCall sha256 payload buffer offset ↔ HeaderReached sha256 payload buffer offset := by
  have hmove : CursorMove = HeaderMove := by
    funext items o o'
    exact propext cursorMove_iff
  simp only [UnpackCall, HeaderReached, FieldCall, CallWithin, hmove]

/-- **When `unpack` ends moving forward.** On every byte string, `unpack` ends with
every call of `decodeField` that returns moving forward exactly when no field that the
headers lead to is readable and moves back. -/
theorem unpack_progress_iff (sha256 : Bytes → Digest) (payload : Bytes) :
    ((Finishes fun fuel => unpack sha256 fuel payload) ∧
        ∀ buffer offset, UnpackCall sha256 payload buffer offset → Progress buffer offset) ↔
      ∀ buffer offset, HeaderReached sha256 payload buffer offset →
        ¬ MovesBack buffer offset := by
  rw [unpack_progress_iff_stalls]
  simp only [unpackCall_iff, stalls_iff]

end BioFire.BinarySerializer
