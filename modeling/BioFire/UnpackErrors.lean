import BioFire.UnpackTermination

/-!
# Errors of `unpack`

A 64-bit field is read eight bytes at a time, whatever length it declares, and an
8-bit field reads its first byte without a look at the length.

* `rejects_name_iff`: the errors of one call are `SerializationError`s unless a
  64-bit field has fewer than eight bytes;
* `fieldReturns_kind_iff`: a value has the kind its type byte announces unless an
  8-bit field is empty;
* `errors_contained_iff`: when `unpack` only throws `SerializationError`s, always
  ends and returns values of the announced kinds;
* `empty_uint64_rejected`: a message of 22 bytes that makes it throw a `TypeError`.
-/

namespace BioFire.BinarySerializer

open Outcome

/-! ## Kinds of values -/

/-- The value has the kind that the type byte announces. -/
def HasKind (typeByte : Option UInt8) : JSValue → Prop
  | .number _ => typeByte = some FIELD_TYPES.UINT8 ∨ typeByte = some FIELD_TYPES.UINT16 ∨
      typeByte = some FIELD_TYPES.UINT32
  | .bigint _ => typeByte = some FIELD_TYPES.UINT64 ∨ typeByte = some FIELD_TYPES.BIG_INT
  | .bytes _ => typeByte = some FIELD_TYPES.BYTES
  | .string _ => typeByte = some FIELD_TYPES.STRING
  | .bool _ => typeByte = some FIELD_TYPES.BOOL
  | .array _ => typeByte = some FIELD_TYPES.ARRAY
  | .map _ => typeByte = some FIELD_TYPES.MAP
  | .undefined => False
  | .null => False

/-- A 64-bit field with fewer than eight bytes. -/
def ShortUint64 (buffer : Bytes) (offset : Int) : Prop :=
  ∃ h, fieldHeader buffer offset = .ok h ∧ h.typeByte = some FIELD_TYPES.UINT64 ∧
    h.valueBytes.length < 8

/-- An 8-bit field without a byte. -/
def EmptyUint8 (buffer : Bytes) (offset : Int) : Prop :=
  ∃ h, fieldHeader buffer offset = .ok h ∧ h.typeByte = some FIELD_TYPES.UINT8 ∧
    h.valueBytes = []

/-- `unpack` ends, throws nothing but `SerializationError`s, and when it returns, every
field that it read has a value of the kind that its type byte announces. -/
structure ErrorsContained (sha256 : Bytes → Digest) (payload : Bytes) : Prop where
  ends : Finishes fun fuel => unpack sha256 fuel payload
  throws : ∀ e, Throws (fun fuel => unpack sha256 fuel payload) e → e.name = .SerializationError
  kinds : ∀ u, Returns (fun fuel => unpack sha256 fuel payload) u →
    ∀ buffer offset h d, UnpackCall sha256 payload buffer offset →
      fieldHeader buffer offset = .ok h → FieldReturns buffer offset d → HasKind h.typeByte d.value

/-- What the fields that `unpack` reads have to keep to. -/
structure ReadsCleanly (sha256 : Bytes → Digest) (payload : Bytes) : Prop where
  noCircle : ∀ buffer offset items, UnpackCall sha256 payload buffer offset →
    Opens buffer offset items → ¬ Circles items
  noShort : ∀ buffer offset, UnpackCall sha256 payload buffer offset → ¬ ShortUint64 buffer offset
  noEmpty : ∀ buffer offset, UnpackCall sha256 payload buffer offset → EmptyUint8 buffer offset →
    ∃ buffer' offset' e, UnpackCall sha256 payload buffer' offset' ∧ Rejects buffer' offset' e

/-! ## The errors of one call -/

theorem payloadHeader_error_name {sha256 : Bytes → Digest} {payload : Bytes} {e : JSError}
    (h : payloadHeader sha256 payload = .error e) : e.name = .SerializationError := by
  unfold payloadHeader at h
  dsimp only at h
  repeat' split at h
  all_goals first
    | cases h; rfl
    | cases h

theorem fieldHeader_error_name {buffer : Bytes} {offset : Int} {e : JSError}
    (h : fieldHeader buffer offset = .error e) : e.name = .SerializationError := by
  unfold fieldHeader at h
  split at h
  · cases h
    rfl
  · split at h
    · cases h
      rfl
    · simp only at h
      split at h
      · cases h
        rfl
      · split at h
        · cases h
          rfl
        · cases h

theorem decodeUint64_short {valueBytes : Bytes} {n : Nat} (big : Int)
    (h : valueBytes.length < n) :
    decodeUint64 valueBytes n big =
      .error ⟨.TypeError, js "Cannot convert undefined to a BigInt"⟩ := by
  induction n generalizing valueBytes big with
  | zero => omega
  | succ n ih =>
    cases valueBytes with
    | nil => rfl
    | cons b bs => exact ih _ (by simpa using h)

theorem decodeUint64_full {valueBytes : Bytes} {n : Nat} (big : Int)
    (h : n ≤ valueBytes.length) : ∃ v, decodeUint64 valueBytes n big = .ok v := by
  induction n generalizing valueBytes big with
  | zero => exact ⟨big, by rw [decodeUint64]⟩
  | succ n ih =>
    cases valueBytes with
    | nil => simp at h
    | cons b bs => exact ih _ (by simpa using h)

/-- The branches of the type byte without loops: what they throw, and what they return. -/
theorem decodeScalar_spec {typeByte : Option UInt8} {valueBytes : Bytes}
    {r : Except JSError JSValue} (h : decodeScalar typeByte valueBytes = some r) :
    (typeByte = some FIELD_TYPES.UINT64 ∧ valueBytes.length < 8 ∧
        r = .error ⟨.TypeError, js "Cannot convert undefined to a BigInt"⟩) ∨
      (¬ (typeByte = some FIELD_TYPES.UINT64 ∧ valueBytes.length < 8) ∧
        ((∃ e, r = .error e ∧ e.name = .SerializationError) ∨
          ∃ v, r = .ok v ∧
            (HasKind typeByte v ↔ ¬ (typeByte = some FIELD_TYPES.UINT8 ∧ valueBytes = [])))) := by
  by_cases h64 : typeByte = some FIELD_TYPES.UINT64
  · subst h64
    obtain rfl : (decodeUint64 valueBytes 8 0).map .bigint = r := Option.some.inj h
    by_cases hshort : valueBytes.length < 8
    · exact Or.inl ⟨rfl, hshort, by rw [decodeUint64_short 0 hshort]; rfl⟩
    · obtain ⟨v, hv⟩ := decodeUint64_full 0 (not_lt.mp hshort)
      refine Or.inr ⟨fun hboth => hshort hboth.2, Or.inr ⟨.bigint v, by rw [hv]; rfl, ?_⟩⟩
      exact iff_of_true (Or.inl rfl) fun hboth => by cases hboth.1
  · refine Or.inr ⟨fun hboth => h64 hboth.1, ?_⟩
    unfold decodeScalar at h
    split at h
    next h8 =>
      subst h8
      cases valueBytes with
      | nil => exact Or.inr ⟨.undefined, (Option.some.inj h).symm, by simp [HasKind]⟩
      | cons b bs =>
        exact Or.inr ⟨.number (.ofInt b.toNat), (Option.some.inj h).symm, by simp [HasKind]⟩
    next h8 =>
      repeat' split at h
      all_goals first
        | cases h; exact Or.inr ⟨_, rfl, by simp_all [HasKind]⟩
        | cases h; exact Or.inl ⟨_, rfl, rfl⟩
        | cases h

/-- **Errors of one call.** -/
theorem rejects_name_iff {buffer : Bytes} {offset : Int} {e : JSError}
    (h : Rejects buffer offset e) :
    e.name = .SerializationError ↔ ¬ ShortUint64 buffer offset := by
  rcases h with herror | ⟨h, hh, herror⟩
  · refine iff_of_true (fieldHeader_error_name herror) ?_
    rintro ⟨h, hh, -⟩
    rw [herror] at hh
    cases hh
  · have hshort : ShortUint64 buffer offset ↔
        h.typeByte = some FIELD_TYPES.UINT64 ∧ h.valueBytes.length < 8 := by
      constructor
      · rintro ⟨h', hh', hfield⟩
        obtain rfl := Except.ok.inj (hh'.symm.trans hh)
        exact hfield
      · exact fun hfield => ⟨h, hh, hfield⟩
    rw [hshort]
    rcases decodeScalar_spec herror with ⟨h64, hlength, he⟩ | ⟨hlong, ⟨e', he, hname⟩ | ⟨v, hv, -⟩⟩
    · cases he
      exact iff_of_false (by simp) (not_not.mpr ⟨h64, hlength⟩)
    · cases he
      exact iff_of_true hname hlong
    · cases hv

theorem ShortUint64.rejects {buffer : Bytes} {offset : Int} (h : ShortUint64 buffer offset) :
    ∃ e, Rejects buffer offset e ∧ e.name = .TypeError := by
  obtain ⟨h, hh, h64, hshort⟩ := h
  refine ⟨⟨.TypeError, js "Cannot convert undefined to a BigInt"⟩, Or.inr ⟨h, hh, ?_⟩, rfl⟩
  rw [h64]
  exact congrArg (fun r => some (r.map JSValue.bigint)) (decodeUint64_short 0 hshort)

/-! ## The values of one call -/

/-- A loop over a container returns what it makes of what it collected. -/
theorem containerLoop_value {σ : Type} {collect : σ → DecodedField → σ} {value : σ → JSValue}
    {decode : Bytes → Int → Outcome JSError DecodedField} {items : Bytes} {n : Nat} {s : Int × σ}
    {v : JSValue} (h : loop (containerRound collect value decode items) n s = .returns v) :
    ∃ acc, v = value acc := by
  induction n generalizing s with
  | zero => cases h
  | succ n ih =>
    obtain ⟨r, hround, hrest⟩ := bind_eq_returns h
    cases r with
    | inl s' => exact ih hrest
    | inr b =>
      cases hrest
      unfold containerRound at hround
      split at hround
      · obtain ⟨d, -, hd⟩ := bind_eq_returns hround
        cases hd
      · cases hround
        exact ⟨s.2, rfl⟩

/-- **Values of one call.** -/
theorem fieldReturns_kind_iff {buffer : Bytes} {offset : Int} {h : FieldHeader} {d : DecodedField}
    (hh : fieldHeader buffer offset = .ok h) (hd : FieldReturns buffer offset d) :
    HasKind h.typeByte d.value ↔ ¬ EmptyUint8 buffer offset := by
  have hempty : EmptyUint8 buffer offset ↔
      h.typeByte = some FIELD_TYPES.UINT8 ∧ h.valueBytes = [] := by
    constructor
    · rintro ⟨h', hh', hfield⟩
      obtain rfl := Except.ok.inj (hh'.symm.trans hh)
      exact hfield
    · exact fun hfield => ⟨h, hh, hfield⟩
  rw [hempty]
  obtain ⟨h', hh', -, -, n, hvalue⟩ := fieldReturns_iff.mp hd
  obtain rfl := Except.ok.inj (hh'.symm.trans hh)
  unfold decodeValue at hvalue
  cases hscalar : decodeScalar h'.typeByte h'.valueBytes with
  | some r =>
    simp only [hscalar] at hvalue
    rw [ofExcept_eq_returns hvalue] at hscalar
    rcases decodeScalar_spec hscalar with ⟨-, -, he⟩ | ⟨-, ⟨e, he, -⟩ | ⟨v, hv, hkind⟩⟩
    · cases he
    · cases he
    · cases hv
      exact hkind
  | none =>
    simp only [hscalar] at hvalue
    split at hvalue
    next harray =>
      obtain ⟨acc, hacc⟩ := containerLoop_value hvalue
      rw [hacc, harray]
      exact iff_of_true rfl fun hboth => by cases hboth.1
    next harray =>
      have hmap : h'.typeByte = some FIELD_TYPES.MAP :=
        (decodeScalar_eq_none_iff.mp hscalar).resolve_left harray
      obtain ⟨acc, hacc⟩ := containerLoop_value hvalue
      rw [hacc, hmap]
      exact iff_of_true rfl fun hboth => by cases hboth.1

theorem EmptyUint8.returns {buffer : Bytes} {offset : Int} (h : EmptyUint8 buffer offset) :
    ∃ h d, fieldHeader buffer offset = .ok h ∧ FieldReturns buffer offset d := by
  obtain ⟨h, hh, h8, hempty⟩ := h
  refine ⟨h, ⟨h.key, .undefined, h.newOffset⟩, hh, fieldReturns_iff.mpr ⟨h, hh, rfl, rfl, 0, ?_⟩⟩
  rw [h8, hempty]
  rfl

/-! ## The errors of `unpack` -/

section Unpack

variable {sha256 : Bytes → Digest} {payload : Bytes}

/-- What `unpack` throws is thrown by one of its own checks or by one of its calls. -/
theorem throws_unpack_iff {e : JSError} :
    Throws (fun fuel => unpack sha256 fuel payload) e ↔
      payloadHeader sha256 payload = .error e ∨
        ∃ buffer offset, UnpackCall sha256 payload buffer offset ∧ Rejects buffer offset e := by
  rw [← (unpack_steady sha256 payload).settles_throws_iff]
  constructor
  · intro hthrows
    rcases unpack_cases sha256 payload with ⟨e', he'⟩ | ⟨u, hu⟩ | ⟨buffer, offset, s, hcall, hstops⟩
    · cases hthrows.unique (unpack_rejected he')
      exact Or.inl he'
    · have hreturns := (unpack_steady sha256 payload).settles_returns_iff.mpr hu
      cases hthrows.unique hreturns
    · have hs := hthrows.unique (hcall.settles hstops)
      cases s with
      | running => cases hs
      | throws e' =>
        cases hs
        exact Or.inr ⟨buffer, offset, hcall, hstops⟩
      | returns a => exact a.elim
  · rintro (he | ⟨buffer, offset, hcall, hrejects⟩)
    · exact unpack_rejected he
    · exact hcall.settles (s := .throws e) hrejects

theorem returns_unpack_of_call {buffer : Bytes} {offset : Int}
    (hcall : UnpackCall sha256 payload buffer offset)
    (hstops : ∀ buffer offset s, UnpackCall sha256 payload buffer offset →
      ¬ Stops buffer offset s) :
    ∃ u, Returns (fun fuel => unpack sha256 fuel payload) u := by
  rcases unpack_cases sha256 payload with ⟨e, he⟩ | hreturns | ⟨buffer, offset, s, hcall, hs⟩
  · obtain ⟨h, o, hh, -⟩ := hcall
    rw [he] at hh
    cases hh
  · exact hreturns
  · exact absurd hs (hstops buffer offset s hcall)

theorem UnpackCall.not_stops {buffer : Bytes} {offset : Int} {u : UnpackedPayload}
    (hcall : UnpackCall sha256 payload buffer offset)
    (hu : Returns (fun fuel => unpack sha256 fuel payload) u) (s : Outcome JSError Empty) :
    ¬ Stops buffer offset s := by
  intro hstops
  have hreturns := (unpack_steady sha256 payload).settles_returns_iff.mpr hu
  exact stop_ne_returns s u ((hcall.settles hstops).unique hreturns)

end Unpack

/-- **When the errors are contained**: no loop over a container comes back to where it
was, no 64-bit field has fewer than eight bytes, and an empty 8-bit field is read only in
a message in which a later field is rejected. -/
theorem errors_contained_iff (sha256 : Bytes → Digest) (payload : Bytes) :
    ErrorsContained sha256 payload ↔ ReadsCleanly sha256 payload := by
  constructor
  · intro h
    have hends := (unpack_finishes_iff sha256 payload).mp h.ends
    refine ⟨fun buffer offset items hcall hopen hcircles =>
      hends buffer offset hcall ⟨items, hopen, hcircles⟩, ?_, ?_⟩
    · intro buffer offset hcall hshort
      obtain ⟨e, hrejects, hname⟩ := hshort.rejects
      have hthrown := h.throws e (throws_unpack_iff.mpr (Or.inr ⟨buffer, offset, hcall, hrejects⟩))
      rw [hname] at hthrown
      cases hthrown
    · intro buffer offset hcall hempty
      by_contra hclean
      have hstops : ∀ b o s, UnpackCall sha256 payload b o → ¬ Stops b o s := by
        intro b o s hcall' hs
        cases s with
        | running => exact hends b o hcall' hs
        | throws e => exact hclean ⟨b, o, e, hcall', hs⟩
        | returns a => exact a.elim
      obtain ⟨u, hu⟩ := returns_unpack_of_call hcall hstops
      obtain ⟨hd, d, hh, hreturns⟩ := hempty.returns
      exact (fieldReturns_kind_iff hh hreturns).mp
        (h.kinds u hu buffer offset hd d hcall hh hreturns) hempty
  · intro h
    refine ⟨(unpack_finishes_iff sha256 payload).mpr ?_, ?_, ?_⟩
    · rintro buffer offset hcall ⟨items, hopen, hcircles⟩
      exact h.noCircle buffer offset items hcall hopen hcircles
    · intro e hthrows
      rcases throws_unpack_iff.mp hthrows with he | ⟨buffer, offset, hcall, hrejects⟩
      · exact payloadHeader_error_name he
      · exact (rejects_name_iff hrejects).mpr (h.noShort buffer offset hcall)
    · intro u hu buffer offset hd d hcall hh hreturns
      refine (fieldReturns_kind_iff hh hreturns).mpr fun hempty => ?_
      obtain ⟨buffer', offset', e, hcall', hrejects⟩ := h.noEmpty buffer offset hcall hempty
      exact hcall'.not_stops hu (.throws e) hrejects

/-! ## A message with an empty 64-bit field -/

def emptyUint64Body : Bytes :=
  MAGIC ++ [VERSION, 0, 0, 0, 9, 0, 0, 1] ++ [0, FIELD_TYPES.UINT64, 0, 0, 0, 0]

/-- SHA-256 of `emptyUint64Body`. -/
def emptyUint64Digest : Digest :=
  ⟨[0x0C, 0x6E, 0x3E, 0xE8, 0x04, 0x65, 0x3C, 0x16, 0x4E, 0x06, 0xDE, 0x0B,
    0xA7, 0xD8, 0x34, 0x37, 0x15, 0x2A, 0x8F, 0x0F, 0x17, 0xC5, 0x95, 0xE5,
    0x6D, 0xB0, 0x16, 0xFB, 0x7D, 0x45, 0x80, 0xC3], rfl⟩

/-- The error that `unpack` throws at this message is a `TypeError`. -/
theorem empty_uint64_rejected :
    unpack (fun _ => emptyUint64Digest) 1 (checksummed (fun _ => emptyUint64Digest) emptyUint64Body) =
        .throws ⟨.TypeError, js "Cannot convert undefined to a BigInt"⟩ ∧
      ¬ ErrorsContained (fun _ => emptyUint64Digest)
        (checksummed (fun _ => emptyUint64Digest) emptyUint64Body) := by
  have hthrows : unpack (fun _ => emptyUint64Digest) 1
      (checksummed (fun _ => emptyUint64Digest) emptyUint64Body) =
        .throws ⟨.TypeError, js "Cannot convert undefined to a BigInt"⟩ := by
    rfl
  refine ⟨hthrows, fun h => ?_⟩
  cases h.throws _ ⟨1, hthrows⟩

end BioFire.BinarySerializer
