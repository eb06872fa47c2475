import BioFire.UnpackProgress
import BioFire.PackContent

/-!
# Messages that are read from one encoding only

`unpack` does not compare a message with what `pack` would write, so many byte
strings give one record. A message in canonical form has nothing behind its
fields, no negative length, no repeated key, texts that are valid UTF-8 and values
of the sizes that `encodeField` writes.

* `canonical_message`: such a message is its fields, framed as `encodeField` frames
  them, behind the prefix that `pack` writes for them;
* `canonical_decoding`: the record and the order of its keys determine it;
* `trailing_byte_accepted`: a byte behind the last field is not noticed.
-/

namespace BioFire

/-! ## Records -/

/-- Records with the same keys in the same order and the same entries. -/
theorem JSRecord.eq_of_same {r r' : JSRecord} (hkeys : r.map Prod.fst = r'.map Prod.fst)
    (hdistinct : (r.map Prod.fst).Nodup) (hsame : JSRecord.Same r r') : r = r' := by
  induction r generalizing r' with
  | nil => exact (List.map_eq_nil_iff.mp hkeys.symm).symm
  | cons e r ih =>
    obtain ⟨key, value⟩ := e
    cases r' with
    | nil => cases hkeys
    | cons e' r' =>
      obtain ⟨key', value'⟩ := e'
      obtain ⟨rfl, hrestKeys⟩ : key = key' ∧ r.map Prod.fst = r'.map Prod.fst :=
        List.cons.inj hkeys
      obtain ⟨hfresh, hdistinct⟩ := List.nodup_cons.mp hdistinct
      have hvalue : value = value' := by simpa [JSRecord.get] using hsame key
      have hget : ∀ {s : JSRecord}, key ∉ s.map Prod.fst → s.get key = none := by
        intro s hs
        rw [JSRecord.get, List.find?_eq_none.mpr, Option.map_none]
        intro e he hkey
        exact hs (by rw [← of_decide_eq_true hkey]; exact List.mem_map_of_mem he)
      have hrest : JSRecord.Same r r' := by
        intro k
        by_cases hk : key = k
        · subst hk
          rw [hget hfresh, hget (by rwa [← hrestKeys])]
        · simpa [JSRecord.get, hk] using hsame k
      rw [hvalue, ih hrestKeys hdistinct hrest]

/-! ## Slices -/

theorem slice_self (bs : Bytes) (a : Int) : slice bs a a = [] := by
  rw [slice, List.drop_eq_nil_iff, List.length_take]
  exact Nat.min_le_left _ _

theorem slice_all (bs : Bytes) : slice bs 0 bs.length = bs := by
  rw [slice, sliceIndex, sliceIndex, if_neg (by omega), if_neg (by omega)]
  simp

theorem slice_take (bs : Bytes) {n : ℕ} (h : n ≤ bs.length) : slice bs 0 n = bs.take n := by
  rw [slice, sliceIndex, sliceIndex, if_neg (by omega), if_neg (by omega)]
  simp [Nat.min_eq_left h]

theorem slice_append {bs : Bytes} {a b c : Int} (ha : 0 ≤ a) (hab : a ≤ b) (hbc : b ≤ c) :
    slice bs a b ++ slice bs b c = slice bs a c := by
  have hnat : ∀ {i : Int}, 0 ≤ i → sliceIndex bs.length i = min i.toNat bs.length := by
    intro i hi
    rw [sliceIndex, if_neg (by omega)]
  rw [slice, slice, slice, hnat ha, hnat (ha.trans hab), hnat (ha.trans (hab.trans hbc))]
  generalize hi : min a.toNat bs.length = i
  generalize hj : min b.toNat bs.length = j
  generalize hk : min c.toNat bs.length = k
  have hij : i ≤ j := by omega
  have hjk : j ≤ k := by omega
  have hk' : k ≤ bs.length := by omega
  have hcut : bs.take k = bs.take j ++ (bs.take k).drop j := by
    conv_lhs => rw [← List.take_append_drop j (bs.take k), List.take_take, min_eq_left hjk]
  conv_rhs => rw [hcut, List.drop_append_of_le_length (by rw [List.length_take]; omega)]

theorem slice_length (bs : Bytes) {a b : Int} (ha : 0 ≤ a) (hab : a ≤ b) (hb : b ≤ bs.length) :
    ((slice bs a b).length : Int) = b - a := by
  simp only [slice, List.length_drop, List.length_take, sliceIndex, if_neg (not_lt.mpr ha),
    if_neg (not_lt.mpr (ha.trans hab))]
  omega

theorem byteAt_of_lt {bs : Bytes} {i : Int} (h₀ : 0 ≤ i) (h : i < bs.length) :
    ∃ b, byteAt bs i = some b := by
  rw [byteAt, if_pos h₀]
  exact ⟨_, List.getElem?_eq_getElem (by omega)⟩

theorem slice_one {bs : Bytes} {i : Int} {b : UInt8} (h : byteAt bs i = some b) :
    slice bs i (i + 1) = [b] := by
  unfold byteAt at h
  split at h
  next h₀ =>
    obtain ⟨hlt, hget⟩ := List.getElem?_eq_some_iff.mp h
    have hstart : sliceIndex bs.length i = i.toNat := by
      rw [sliceIndex, if_neg (by omega)]
      omega
    have hstop : sliceIndex bs.length (i + 1) = i.toNat + 1 := by
      rw [sliceIndex, if_neg (by omega)]
      omega
    rw [slice, hstart, hstop, List.take_succ_eq_append_getElem hlt, hget,
      List.drop_append_of_le_length (by rw [List.length_take]; omega),
      List.drop_of_length_le (by rw [List.length_take]; omega), List.nil_append]
  · cases h

/-- Four bytes of a byte string, written from the number that they are read as. -/
theorem slice_int32 {bs : Bytes} {i : Int} (h₀ : 0 ≤ i) (h : i + 4 ≤ bs.length) {n : Int}
    (hn : n = int32 (byteAt bs i) (byteAt bs (i + 1)) (byteAt bs (i + 2)) (byteAt bs (i + 3))) :
    slice bs i (i + 4) = [byteOf n 24, byteOf n 16, byteOf n 8, byteOf n 0] := by
  obtain ⟨b0, h0⟩ := byteAt_of_lt h₀ (by omega : i < bs.length)
  obtain ⟨b1, h1⟩ := byteAt_of_lt (by omega : 0 ≤ i + 1) (by omega : i + 1 < bs.length)
  obtain ⟨b2, h2⟩ := byteAt_of_lt (by omega : 0 ≤ i + 2) (by omega : i + 2 < bs.length)
  obtain ⟨b3, h3⟩ := byteAt_of_lt (by omega : 0 ≤ i + 3) (by omega : i + 3 < bs.length)
  obtain ⟨e0, e1, e2, e3⟩ := byteOf_int32 (some b0) (some b1) (some b2) (some b3)
  rw [hn, h0, h1, h2, h3, e0, e1, e2, e3, ← slice_append h₀ (by omega : i ≤ i + 1) (by omega),
    ← slice_append (by omega) (by omega : i + 1 ≤ i + 1 + 1) (by omega),
    ← slice_append (by omega) (by omega : i + 1 + 1 ≤ i + 1 + 1 + 1) (by omega),
    slice_one h0, slice_one h1, slice_one (b := b2) (by rw [← h2]; ring_nf),
    show i + 4 = i + 1 + 1 + 1 + 1 by ring, slice_one (b := b3) (by rw [← h3]; ring_nf)]
  rfl

/-- Two bytes of a byte string, written from the number that they are read as. -/
theorem slice_int16 {bs : Bytes} {i : Int} (h₀ : 0 ≤ i) (h : i + 2 ≤ bs.length) {n : Int}
    (hn : n = int16 (byteAt bs i) (byteAt bs (i + 1))) :
    slice bs i (i + 2) = [byteOf n 8, byteOf n 0] := by
  obtain ⟨b0, h0⟩ := byteAt_of_lt h₀ (by omega : i < bs.length)
  obtain ⟨b1, h1⟩ := byteAt_of_lt (by omega : 0 ≤ i + 1) (by omega : i + 1 < bs.length)
  obtain ⟨e0, e1⟩ := byteOf_int16 (some b0) (some b1)
  rw [hn, h0, h1, e0, e1, ← slice_append h₀ (by omega : i ≤ i + 1) (by omega), slice_one h0,
    show i + 2 = i + 1 + 1 by ring, slice_one h1]
  rfl

namespace BinarySerializer

open Outcome

/-! ## Canonical form -/

/-- The value has the size and the range of what `encodeField` writes under its type byte. -/
def CanonicalValue (typeByte : Option UInt8) (valueBytes : Bytes) : Prop :=
  if typeByte = some FIELD_TYPES.UINT8 then valueBytes.length = 1
  else if typeByte = some FIELD_TYPES.UINT16 then ∃ b0 b1, valueBytes = [b0, b1] ∧ b0 ≠ 0
  else if typeByte = some FIELD_TYPES.UINT32 then
    ∃ b0 b1 b2 b3, valueBytes = [b0, b1, b2, b3] ∧ ¬ (b0 = 0 ∧ b1 = 0)
  else if typeByte = some FIELD_TYPES.UINT64 then False
  else if typeByte = some FIELD_TYPES.BIG_INT then valueBytes.length = 32
  else if typeByte = some FIELD_TYPES.STRING then textEncode (textDecode valueBytes) = valueBytes
  else if typeByte = some FIELD_TYPES.BOOL then valueBytes = [0] ∨ valueBytes = [1]
  else True

/-- The bytes of a key. -/
def keyBytes (payload : Bytes) (field : Int × FieldHeader) : Bytes :=
  slice payload (field.1 + 1) (field.1 + 1 + field.2.keyLen)

structure CanonicalField (payload : Bytes) (field : Int × FieldHeader) : Prop where
  length : 0 ≤ field.2.valueLen
  key : textEncode field.2.key = keyBytes payload field
  ownProperty : field.2.key ≠ js "__proto__"
  value : CanonicalValue field.2.typeByte field.2.valueBytes

/-- Where the fields of a message end. -/
def fieldsEnd (offset : Int) (fields : List (Int × FieldHeader)) : Int :=
  (fields.getLast?.map fun field => field.2.newOffset).getD offset

/-- A message in canonical form. -/
structure Canonical (payload : Bytes) (h : PayloadHeader) : Prop where
  type : textEncode h.type = slice payload 10 (h.offset - 2)
  fields : ∀ field ∈ fieldHeaders payload h.fieldCount h.offset, CanonicalField payload field
  distinct : ((fieldHeaders payload h.fieldCount h.offset).map fun field => field.2.key).Nodup
  ends : fieldsEnd h.offset (fieldHeaders payload h.fieldCount h.offset) = payload.length - 4

/-! ## The bytes of a field -/

/-- Everything that a header that passes the checks is read from. -/
theorem fieldHeader_eq {payload : Bytes} {offset : Int} {h : FieldHeader}
    (hh : fieldHeader payload offset = .ok h) :
    byteAt payload offset = some (UInt8.ofNat h.keyLen) ∧ h.keyLen < 256 ∧
      h.key = textDecode (keyBytes payload (offset, h)) ∧
      h.typeByte = byteAt payload (offset + 1 + h.keyLen) ∧
      h.valueLen = int32 (byteAt payload (offset + 2 + h.keyLen))
        (byteAt payload (offset + 2 + h.keyLen + 1)) (byteAt payload (offset + 2 + h.keyLen + 2))
        (byteAt payload (offset + 2 + h.keyLen + 3)) ∧
      h.valueBytes = slice payload (valueStart (offset, h)) h.newOffset := by
  have hat := headerAt_of_ok hh
  exact ⟨hat.keyLen, hat.keyLen_lt, hat.key, hat.typeByte, hat.valueLen, hat.valueBytes⟩

/-- **Framing.** A field whose length is not negative stands in the message as
`encodeField` frames it. -/
theorem slice_field {payload : Bytes} {offset : Int} {h : FieldHeader}
    (hh : fieldHeader payload offset = .ok h) (hlen : 0 ≤ h.valueLen) :
    ∃ typeByte, h.typeByte = some typeByte ∧ slice payload offset h.newOffset =
      frameField (keyBytes payload (offset, h)) typeByte h.valueBytes := by
  obtain ⟨hkeyLen, hlt, -, htype, hvalueLen, hvalue⟩ := fieldHeader_eq hh
  have hstart := (fieldHeader_ok hh).1
  have hend := (fieldHeader_bounds hh).2
  have hnew := valueStart_add_valueLen hh
  simp only [valueStart] at hnew hvalue
  obtain ⟨typeByte, htypeByte⟩ : ∃ b, byteAt payload (offset + 1 + h.keyLen) = some b :=
    byteAt_of_lt (by omega) (by omega)
  have hkeyLength : (keyBytes payload (offset, h)).length = h.keyLen := by
    have := slice_length payload (by omega : 0 ≤ offset + 1)
      (by omega : offset + 1 ≤ offset + 1 + h.keyLen) (by omega)
    rw [keyBytes]
    simp only
    omega
  have hvalueLength : (h.valueBytes.length : Int) = h.valueLen := by
    rw [hvalue, slice_length payload (by omega) (by omega) (by omega)]
    omega
  refine ⟨typeByte, htype.trans htypeByte, ?_⟩
  rw [← slice_append hstart (by omega : offset ≤ offset + 1) (by omega), slice_one hkeyLen,
    ← slice_append (by omega) (by omega : offset + 1 ≤ offset + 1 + h.keyLen) (by omega),
    ← slice_append (by omega) (by omega : offset + 1 + h.keyLen ≤ offset + 1 + h.keyLen + 1)
      (by omega), slice_one htypeByte,
    ← slice_append (by omega)
      (by omega : offset + 1 + h.keyLen + 1 ≤ offset + 1 + h.keyLen + 1 + 4) (by omega),
    show offset + 1 + h.keyLen + 1 = offset + 2 + h.keyLen by ring,
    slice_int32 (by omega) (by omega) (hvalueLength.trans hvalueLen),
    show offset + 2 + h.keyLen + 4 = offset + 6 + h.keyLen by ring, ← hvalue, frameField,
    hkeyLength, keyBytes]
  simp only [List.append_assoc]

/-! ## The values of canonical fields -/

/-- The canonical type byte and bytes of a value. -/
def writtenValue : JSValue → UInt8 × Bytes
  | .number x =>
    let n := x.truncate
    if 0 ≤ n ∧ n ≤ 0xFF then (FIELD_TYPES.UINT8, [byteOf n 0])
    else if 0 ≤ n ∧ n ≤ 0xFFFF then (FIELD_TYPES.UINT16, [byteOf n 8, byteOf n 0])
    else (FIELD_TYPES.UINT32, [byteOf n 24, byteOf n 16, byteOf n 8, byteOf n 0])
  | .bigint n => (FIELD_TYPES.BIG_INT, bigIntToBytes n 32)
  | .bytes bs => (FIELD_TYPES.BYTES, bs)
  | .string s => (FIELD_TYPES.STRING, textEncode s)
  | .bool b => (FIELD_TYPES.BOOL, [if b then 1 else 0])
  | .array _ => (FIELD_TYPES.ARRAY, [])
  | .map _ => (FIELD_TYPES.MAP, [])
  | .undefined => (0, [])
  | .null => (0, [])

theorem bigIntToBytes_bigOfBytes (bs : Bytes) : bigIntToBytes (bigOfBytes bs) bs.length = bs := by
  induction bs using List.reverseRecOn with
  | nil => rfl
  | append_singleton bs b ih =>
    have hb := b.toNat_lt
    have hbig : bigOfBytes (bs ++ [b]) = bigOfBytes bs * 256 + b.toNat := List.foldl_concat _ 0 _ bs
    have hshift : bigOfBytes (bs ++ [b]) >>> (8 : ℕ) = bigOfBytes bs := by
      rw [hbig, Int.shiftRight_eq_div_pow]
      omega
    have hlow : lowByte (bigOfBytes (bs ++ [b])) = b := by
      rw [lowByte, hbig, show (bigOfBytes bs * 256 + (b.toNat : Int)) % 256 = b.toNat by omega,
        Int.toNat_natCast, UInt8.ofNat_toNat]
    rw [List.length_append, List.length_singleton, bigIntToBytes, hshift, hlow, ih]

theorem writtenValue_number (n : Int) : writtenValue (.number (.ofInt n)) =
    if 0 ≤ n ∧ n ≤ 0xFF then (FIELD_TYPES.UINT8, [byteOf n 0])
    else if 0 ≤ n ∧ n ≤ 0xFFFF then (FIELD_TYPES.UINT16, [byteOf n 8, byteOf n 0])
    else (FIELD_TYPES.UINT32, [byteOf n 24, byteOf n 16, byteOf n 8, byteOf n 0]) := by
  have htruncate : (JSNumber.ofInt n).truncate = n := by simp [JSNumber.ofInt, JSNumber.truncate]
  rw [writtenValue, htruncate]

/-- One byte is written for a number that was read from one byte. -/
theorem writtenValue_byte (b : UInt8) :
    writtenValue (.number (.ofInt b.toNat)) = (FIELD_TYPES.UINT8, [b]) := by
  have hb := b.toNat_lt
  have hbyte : byteOf (b.toNat : Int) 0 = b :=
    UInt8.toNat_inj.mp (by rw [byteOf_toNat b.toNat (Nat.zero_le 24)]; omega)
  rw [writtenValue_number, if_pos (by omega), hbyte]

theorem writtenValue_int16 {b0 b1 : UInt8} (h : b0 ≠ 0) :
    writtenValue (.number (.ofInt (int16 (some b0) (some b1)))) =
      (FIELD_TYPES.UINT16, [b0, b1]) := by
  obtain ⟨hbyte0, hbyte1⟩ := byteOf_int16 (some b0) (some b1)
  have hn := int16_eq (some b0) (some b1)
  have hlt0 := b0.toNat_lt
  have hlt1 := b1.toNat_lt
  have hpos : b0.toNat ≠ 0 := fun hzero => h (UInt8.toNat_inj.mp hzero)
  simp only [Option.getD_some] at hbyte0 hbyte1 hn
  rw [writtenValue_number, if_neg (by omega), if_pos (by omega), hbyte0, hbyte1]

theorem writtenValue_int32 {b0 b1 b2 b3 : UInt8} (h : ¬ (b0 = 0 ∧ b1 = 0)) :
    writtenValue (.number (.ofInt (int32 (some b0) (some b1) (some b2) (some b3)))) =
      (FIELD_TYPES.UINT32, [b0, b1, b2, b3]) := by
  obtain ⟨hbyte0, hbyte1, hbyte2, hbyte3⟩ := byteOf_int32 (some b0) (some b1) (some b2) (some b3)
  simp only [Option.getD_some] at hbyte0 hbyte1 hbyte2 hbyte3
  have hlarge : ∀ m : ℕ, int32 (some b0) (some b1) (some b2) (some b3) = m → 0xFFFF < m := by
    intro m hm
    by_contra hle
    rw [hm] at hbyte0 hbyte1
    refine h ⟨?_, ?_⟩
    · rw [← hbyte0]
      exact UInt8.toNat_inj.mp (by rw [byteOf_toNat m (Nat.le_refl 24)]; simp; omega)
    · rw [← hbyte1]
      exact UInt8.toNat_inj.mp (by rw [byteOf_toNat m (by decide : 16 ≤ 24)]; simp; omega)
  have hnot : ∀ k : Int, k ≤ 0xFFFF → ¬ (0 ≤ int32 (some b0) (some b1) (some b2) (some b3) ∧
      int32 (some b0) (some b1) (some b2) (some b3) ≤ k) := by
    rintro k hk ⟨h₀, hle⟩
    have := hlarge _ (Int.toNat_of_nonneg h₀).symm
    omega
  rw [writtenValue_number, if_neg (hnot _ (by decide)), if_neg (hnot _ le_rfl), hbyte0, hbyte1,
    hbyte2, hbyte3]

/-- The type bytes under which a value is read without a loop. -/
theorem decodeScalar_ok_type {typeByte : Option UInt8} {valueBytes : Bytes} {v : JSValue}
    (hv : decodeScalar typeByte valueBytes = some (.ok v)) :
    typeByte = some FIELD_TYPES.UINT8 ∨ typeByte = some FIELD_TYPES.UINT16 ∨
      typeByte = some FIELD_TYPES.UINT32 ∨ typeByte = some FIELD_TYPES.UINT64 ∨
      typeByte = some FIELD_TYPES.BIG_INT ∨ typeByte = some FIELD_TYPES.BYTES ∨
      typeByte = some FIELD_TYPES.STRING ∨ typeByte = some FIELD_TYPES.BOOL := by
  by_contra hother
  simp only [not_or] at hother
  simp only [decodeScalar, hother, if_false] at hv
  split at hv
  · cases hv
  · cases hv

/-- **One encoding.** A canonical field holds the bytes that are written for its value. -/
theorem writtenValue_of_canonical {typeByte : Option UInt8} {valueBytes : Bytes} {v : JSValue}
    (hcanon : CanonicalValue typeByte valueBytes)
    (hv : decodeScalar typeByte valueBytes = some (.ok v)) :
    typeByte = some (writtenValue v).1 ∧ valueBytes = (writtenValue v).2 := by
  have hok : ∀ {w : JSValue}, some (Except.ok w : Except JSError JSValue) = some (.ok v) → w = v :=
    fun hw => Except.ok.inj (Option.some.inj hw)
  rcases decodeScalar_ok_type hv with rfl | rfl | rfl | rfl | rfl | rfl | rfl | rfl
  · obtain ⟨b, rfl⟩ := List.length_eq_one_iff.mp hcanon
    obtain rfl : JSValue.number (.ofInt b.toNat) = v := hok hv
    rw [writtenValue_byte]
    exact ⟨rfl, rfl⟩
  · obtain ⟨b0, b1, rfl, hb0⟩ := hcanon
    obtain rfl : JSValue.number (.ofInt (int16 (some b0) (some b1))) = v := hok hv
    rw [writtenValue_int16 hb0]
    exact ⟨rfl, rfl⟩
  · obtain ⟨b0, b1, b2, b3, rfl, hb⟩ := hcanon
    obtain rfl : JSValue.number (.ofInt (int32 (some b0) (some b1) (some b2) (some b3))) = v :=
      hok hv
    rw [writtenValue_int32 hb]
    exact ⟨rfl, rfl⟩
  · exact False.elim hcanon
  · have hlength : valueBytes.length = 32 := hcanon
    obtain rfl : JSValue.bigint (bigOfBytes valueBytes) = v := hok hv
    rw [writtenValue, ← hlength, bigIntToBytes_bigOfBytes]
    exact ⟨rfl, rfl⟩
  · obtain rfl : JSValue.bytes valueBytes = v := hok hv
    exact ⟨rfl, rfl⟩
  · have htext : textEncode (textDecode valueBytes) = valueBytes := hcanon
    obtain rfl : JSValue.string (textDecode valueBytes) = v := hok hv
    rw [writtenValue, htext]
    exact ⟨rfl, rfl⟩
  · rcases (hcanon : valueBytes = [0] ∨ valueBytes = [1]) with rfl | rfl
    · obtain rfl : JSValue.bool false = v := hok hv
      exact ⟨rfl, rfl⟩
    · obtain rfl : JSValue.bool true = v := hok hv
      exact ⟨rfl, rfl⟩

/-- The canonical bytes of an entry of a record. -/
def writtenField (entry : JSString × JSValue) : Bytes :=
  frameField (textEncode entry.1) (writtenValue entry.2).1 (writtenValue entry.2).2

/-- A canonical field stands in the message as its entry is written. -/
theorem slice_canonicalField {payload : Bytes} {offset : Int} {h : FieldHeader} {d : DecodedField}
    (hh : fieldHeader payload offset = .ok h) (hd : FieldReturns payload offset d)
    (hcanon : CanonicalField payload (offset, h)) :
    slice payload offset h.newOffset = writtenField (d.key, d.value) := by
  obtain ⟨typeByte, htype, hslice⟩ := slice_field hh hcanon.length
  obtain ⟨hkey, -, hvalue⟩ := fieldReturns_value hh hd
  have hwritten : h.typeByte = some (writtenValue d.value).1 ∧
      h.valueBytes = (writtenValue d.value).2 := by
    rcases hvalue with hscalar | ⟨hempty, ⟨harray, hv⟩ | ⟨hmap, hv⟩⟩
    · exact writtenValue_of_canonical hcanon.value hscalar
    · rw [hempty, harray, hv]
      exact ⟨rfl, rfl⟩
    · rw [hempty, hmap, hv]
      exact ⟨rfl, rfl⟩
  obtain rfl : typeByte = (writtenValue d.value).1 :=
    Option.some.inj (htype.symm.trans hwritten.1)
  rw [hslice, writtenField, hwritten.2, ← hcanon.key, hkey]

/-! ## The record of a message -/

/-- The field is read as `d`. -/
def ReadAs (payload : Bytes) (field : Int × FieldHeader) (d : DecodedField) : Prop :=
  FieldReturns payload field.1 d ∧ d.key = field.2.key

/-- The fields of a field loop that returns, and what it makes of them. -/
theorem unpackFields_returns {payload : Bytes} {count : ℕ} {offset : Int} {data r : JSRecord}
    (h : Returns (fun fuel => unpackFields fuel payload count offset data) r) :
    (fieldHeaders payload count offset).length = count ∧ ∃ ds : List DecodedField,
      List.Forall₂ (ReadAs payload) (fieldHeaders payload count offset) ds ∧
      r = ds.foldl (fun data d => data.assign d.key d.value) data := by
  induction count generalizing offset data with
  | zero =>
    obtain ⟨n, hn⟩ := h
    cases hn
    exact ⟨rfl, [], .nil, rfl⟩
  | succ count ih =>
    obtain ⟨n, hn⟩ := h
    obtain ⟨d, hd, hrest⟩ := bind_eq_returns hn
    obtain ⟨h, hh, hkey, hoffset, -⟩ := fieldReturns_iff.mp ⟨n, hd⟩
    obtain ⟨hlength, ds, hds, hr⟩ := ih ⟨n, hrest⟩
    rw [hoffset] at hlength hds
    rw [fieldHeaders, hh]
    exact ⟨congrArg (· + 1) hlength, d :: ds, .cons ⟨⟨n, hd⟩, hkey⟩ hds, hr⟩

theorem foldl_assign {ds : List DecodedField} {data : JSRecord}
    (hproto : ∀ d ∈ ds, d.key ≠ js "__proto__")
    (hdistinct : (data.map Prod.fst ++ ds.map DecodedField.key).Nodup) :
    ds.foldl (fun data d => data.assign d.key d.value) data =
      data ++ ds.map fun d => (d.key, d.value) := by
  induction ds generalizing data with
  | nil => simp
  | cons d ds ih =>
    have hnew : data.assign d.key d.value = data ++ [(d.key, d.value)] := by
      have hfresh : ¬ (data.any fun e => e.1 = d.key) := by
        intro hany
        obtain ⟨e, he, hkey⟩ := List.any_eq_true.mp hany
        exact (List.disjoint_of_nodup_append hdistinct) (List.mem_map_of_mem he)
          (by simp [of_decide_eq_true hkey])
      rw [JSRecord.assign, if_neg (hproto d List.mem_cons_self), if_neg hfresh]
    rw [List.foldl_cons, hnew, ih (fun d' hd' => hproto d' (List.mem_cons_of_mem d hd'))
      (by simpa using hdistinct)]
    simp

/-! ## The message of a record -/

theorem fieldsEnd_cons (offset : Int) (field : Int × FieldHeader)
    (rest : List (Int × FieldHeader)) :
    fieldsEnd offset (field :: rest) = fieldsEnd field.2.newOffset rest := by
  cases rest with
  | nil => rfl
  | cons next rest =>
    rw [fieldsEnd, fieldsEnd, List.getLast?_cons_cons]
    obtain ⟨last, hlast⟩ := Option.ne_none_iff_exists'.mp
      (mt List.getLast?_eq_none_iff.mp (List.cons_ne_nil next rest))
    rw [hlast]
    rfl

/-- **Run.** The fields of a canonical message stand one behind the other as they are written. -/
theorem slice_canonicalFields {payload : Bytes} {count : ℕ} {offset : Int}
    {fields : List (Int × FieldHeader)} {ds : List DecodedField} (hoffset : 0 ≤ offset)
    (hfields : fieldHeaders payload count offset = fields)
    (hds : List.Forall₂ (ReadAs payload) fields ds)
    (hcanon : ∀ field ∈ fields, CanonicalField payload field) :
    offset ≤ fieldsEnd offset fields ∧ slice payload offset (fieldsEnd offset fields) =
      ((ds.map fun d => (d.key, d.value)).map writtenField).flatten := by
  induction fields generalizing count offset ds with
  | nil =>
    cases hds
    exact ⟨le_rfl, slice_self payload offset⟩
  | cons field rest ih =>
    obtain ⟨h, rfl, hh, n, hrest⟩ := fieldHeaders_cons hfields
    cases hds with
    | cons hd hds =>
      have hfield := hcanon _ List.mem_cons_self
      have hforward : offset ≤ h.newOffset := by
        have hlen : 0 ≤ h.valueLen := hfield.length
        have := valueStart_add_valueLen hh
        simp only [valueStart] at this
        omega
      obtain ⟨hle, hslice⟩ := ih (hoffset.trans hforward) hrest.symm hds
        fun field hfield => hcanon field (List.mem_cons_of_mem _ hfield)
      rw [fieldsEnd_cons]
      refine ⟨hforward.trans hle, ?_⟩
      rw [← slice_append hoffset hforward hle, slice_canonicalField hh hd.1 hfield, hslice]
      simp only [List.map_cons, List.flatten_cons]

/-- What stands in front of the checksum is the prefix that `pack` writes. -/
theorem slice_prefix {sha256 : Bytes → Digest} {payload : Bytes} {h : PayloadHeader}
    (hh : payloadHeader sha256 payload = .ok h)
    (htype : textEncode h.type = slice payload 10 (h.offset - 2))
    (hbody : h.offset ≤ payload.length - 4) :
    slice payload 0 (payload.length - 4) = packPrefix (payload.length - 13) (textEncode h.type)
      h.fieldCount (slice payload h.offset (payload.length - 4)) := by
  obtain ⟨hmagic, hversion, hlength, -, -, -, -, hcount, hoffset⟩ := payloadHeader_eq hh
  obtain ⟨typeLen, htypeLen⟩ := byteAt_of_lt (by omega : (0 : Int) ≤ 9)
    (by omega : (9 : Int) < payload.length)
  rw [htypeLen, Option.getD_some] at hoffset
  have htypeLength : UInt8.ofNat (textEncode h.type).length = typeLen := by
    have hcast := slice_length payload (by omega : (0 : Int) ≤ 10)
      (by omega : (10 : Int) ≤ h.offset - 2) (by omega)
    rw [htype, show (slice payload 10 (h.offset - 2)).length = typeLen.toNat by omega,
      UInt8.ofNat_toNat]
  have hbodyLen : ((payload.length - 13 : ℕ) : Int) = int32 (byteAt payload 5)
      (byteAt payload (5 + 1)) (byteAt payload (5 + 2)) (byteAt payload (5 + 3)) := by
    rw [show (5 : Int) + 1 = 6 by rfl, show (5 : Int) + 2 = 7 by rfl, show (5 : Int) + 3 = 8 by rfl,
      hlength]
    omega
  have hfieldCount : (h.fieldCount : Int) =
      int16 (byteAt payload (h.offset - 2)) (byteAt payload (h.offset - 2 + 1)) := by
    rw [hcount, int16_eq, Int.toNat_natCast]
  have hversionByte : slice payload 4 5 = [VERSION] := slice_one hversion
  have htypeLenByte : slice payload 9 10 = [typeLen] := slice_one htypeLen
  have hlengthBytes : slice payload 5 9 = _ := slice_int32 (by omega) (by omega) hbodyLen
  have hcut : slice payload 0 (payload.length - 4) =
      slice payload 0 (4 : ℕ) ++ (slice payload 4 5 ++ (slice payload 5 9 ++
        (slice payload 9 10 ++ (slice payload 10 (h.offset - 2) ++
          (slice payload (h.offset - 2) (h.offset - 2 + 2) ++
            slice payload h.offset (payload.length - 4)))))) := by
    rw [show h.offset - 2 + 2 = h.offset by ring, slice_append (by omega) (by omega) hbody,
      slice_append (by omega) (by omega) (by omega), slice_append (by omega) (by omega) (by omega),
      slice_append (by omega) (by omega) (by omega), slice_append (by omega) (by omega) (by omega)]
    exact (slice_append le_rfl (by omega) (by omega)).symm
  rw [hcut, slice_take payload (by omega), hmagic, hversionByte, hlengthBytes, htypeLenByte, ← htype,
    slice_int16 (by omega) (by omega) hfieldCount, packPrefix, htypeLength]
  simp only [List.append_assoc]

/-- The record of a canonical message has an entry for each field. -/
theorem canonical_record {payload : Bytes} {count : ℕ} {offset : Int} {data : JSRecord}
    (hdata : Returns (fun fuel => unpackFields fuel payload count offset []) data)
    (hcanon : ∀ field ∈ fieldHeaders payload count offset, CanonicalField payload field)
    (hdistinct : ((fieldHeaders payload count offset).map fun field => field.2.key).Nodup) :
    ∃ ds : List DecodedField, data = ds.map (fun d => (d.key, d.value)) ∧
      List.Forall₂ (ReadAs payload) (fieldHeaders payload count offset) ds ∧
      ds.map DecodedField.key = (fieldHeaders payload count offset).map fun field => field.2.key := by
  obtain ⟨-, ds, hds, hassigned⟩ := unpackFields_returns hdata
  have hkeys : ds.map DecodedField.key =
      (fieldHeaders payload count offset).map fun field => field.2.key := by
    rw [← List.forall₂_eq_eq_eq, List.forall₂_map_left_iff, List.forall₂_map_right_iff]
    exact hds.flip.imp fun d field hd => hd.2
  refine ⟨ds, ?_, hds, hkeys⟩
  rw [hassigned, foldl_assign, List.nil_append]
  · intro d hd hproto
    have hmem : d.key ∈ ds.map DecodedField.key := List.mem_map_of_mem hd
    rw [hkeys] at hmem
    obtain ⟨field, hfield, hkey⟩ := List.mem_map.mp hmem
    exact (hcanon field hfield).ownProperty (hkey.trans hproto)
  · rw [List.map_nil, List.nil_append, hkeys]
    exact hdistinct

/-- **A canonical message** is what is written for its type and its record. -/
theorem canonical_message {sha256 : Bytes → Digest} {payload : Bytes} {u : UnpackedPayload}
    (hu : Returns (fun fuel => unpack sha256 fuel payload) u) {h : PayloadHeader}
    (hh : payloadHeader sha256 payload = .ok h) (hcanon : Canonical payload h) :
    u.data.map Prod.fst =
        (fieldHeaders payload h.fieldCount h.offset).map (fun field => field.2.key) ∧
      payload = checksummed sha256
        (packPrefix ((textEncode u.type).length + (u.data.map writtenField).flatten.length + 3)
          (textEncode u.type) u.data.length (u.data.map writtenField).flatten) := by
  obtain ⟨fuel, hfuel⟩ := hu
  obtain ⟨h', hh', hrest⟩ := bind_eq_returns hfuel
  obtain rfl := Except.ok.inj ((ofExcept_eq_returns hh').symm.trans hh)
  obtain ⟨data, hdata, hu⟩ := bind_eq_returns hrest
  obtain rfl := returns.inj hu
  obtain ⟨-, -, -, hcrc, -, htypeEnd, -, -, hoffset⟩ := payloadHeader_eq hh
  obtain ⟨hfieldCount, -⟩ := unpackFields_returns ⟨fuel, hdata⟩
  obtain ⟨ds, rfl, hds, hkeys⟩ := canonical_record ⟨fuel, hdata⟩ hcanon.fields hcanon.distinct
  obtain ⟨hend, hbody⟩ := slice_canonicalFields (by omega) rfl hds hcanon.fields
  rw [hcanon.ends] at hend hbody
  have hprefix := slice_prefix hh hcanon.type hend
  rw [hbody] at hprefix
  have hbodyLength := congrArg List.length hprefix
  have hslice := slice_length payload le_rfl (by omega : (0 : Int) ≤ payload.length - 4)
    (by omega)
  rw [packPrefix_length] at hbodyLength
  refine ⟨by rw [List.map_map]; exact hkeys, ?_⟩
  dsimp only
  rw [List.length_map, ← hds.length_eq, hfieldCount,
    show (textEncode h'.type).length +
      ((ds.map fun d => (d.key, d.value)).map writtenField).flatten.length + 3 =
        payload.length - 13 by omega, ← hprefix, checksummed, ← hcrc,
    slice_append le_rfl (by omega) (by omega), slice_all]

/-- **Canonical decoding.** Among the accepted messages in canonical form whose fields have
their keys in one order, the type and the record determine the message. -/
theorem canonical_decoding {sha256 : Bytes → Digest} {payload payload' : Bytes}
    {u u' : UnpackedPayload} (hu : Returns (fun fuel => unpack sha256 fuel payload) u)
    (hu' : Returns (fun fuel => unpack sha256 fuel payload') u') {h h' : PayloadHeader}
    (hh : payloadHeader sha256 payload = .ok h) (hh' : payloadHeader sha256 payload' = .ok h')
    (hcanon : Canonical payload h) (hcanon' : Canonical payload' h')
    (hkeys : (fieldHeaders payload h.fieldCount h.offset).map (fun field => field.2.key) =
      (fieldHeaders payload' h'.fieldCount h'.offset).map fun field => field.2.key)
    (htype : u.type = u'.type) (hsame : u.data.Same u'.data) : payload = payload' := by
  obtain ⟨hdata, hpayload⟩ := canonical_message hu hh hcanon
  obtain ⟨hdata', hpayload'⟩ := canonical_message hu' hh' hcanon'
  have hrecord : u.data = u'.data :=
    JSRecord.eq_of_same (by rw [hdata, hdata', hkeys]) (by rw [hdata]; exact hcanon.distinct) hsame
  rw [hpayload, hpayload', htype, hrecord]

/-! ## A byte behind the last field -/

theorem canonical_flag {h : PayloadHeader} (hh : payloadHeader (fun _ => flagDigest)
    (checksummed (fun _ => flagDigest) flagBody) = .ok h) :
    Canonical (checksummed (fun _ => flagDigest) flagBody) h := by
  cases hh
  have hfields : fieldHeaders (checksummed (fun _ => flagDigest) flagBody) 1 12 =
      [(12, ⟨js "o", 1, some FIELD_TYPES.BOOL, 1, [1], 20⟩)] := by rfl
  refine ⟨by rfl, ?_, ?_, by rfl⟩
  · intro field hfield
    obtain rfl := List.mem_singleton.mp (hfields ▸ hfield)
    exact ⟨by decide, by rfl, by decide, Or.inr rfl⟩
  · exact hfields ▸ List.nodup_singleton _

theorem canonical_decoding_flag :
    checksummed (fun _ => flagDigest) flagBody = checksummed (fun _ => flagDigest)
      (packPrefix 11 [] 1 (writtenField (js "o", .bool true))) := by
  have hu : Returns (fun fuel => unpack (fun _ => flagDigest) fuel
      (checksummed (fun _ => flagDigest) flagBody)) ⟨[], [(js "o", .bool true)], _⟩ := ⟨1, rfl⟩
  exact canonical_decoding hu hu rfl rfl (canonical_flag rfl) (canonical_flag rfl) rfl rfl
    fun _ => rfl

/-- No type and no field. -/
def plainBody : Bytes := MAGIC ++ [VERSION, 0, 0, 0, 3, 0, 0, 0]

/-- The same with a byte behind the fields. -/
def trailingBody : Bytes := MAGIC ++ [VERSION, 0, 0, 0, 4, 0, 0, 0, 0xFF]

/-- SHA-256 of `plainBody`. -/
def plainDigest : Digest :=
  ⟨[0x99, 0x17, 0xDD, 0x3C, 0x08, 0x11, 0x59, 0x95, 0x97, 0x3D, 0xD9, 0x67,
    0xE0, 0xDB, 0x10, 0x30, 0xAE, 0xA6, 0xD8, 0x3A, 0xD9, 0xA0, 0x02, 0x44,
    0x68, 0x2B, 0x5F, 0x7A, 0x56, 0x4A, 0x06, 0x8C], rfl⟩

/-- SHA-256 of `trailingBody`. -/
def trailingDigest : Digest :=
  ⟨[0x03, 0xCC, 0x05, 0x2F, 0xE9, 0xC8, 0xAA, 0xC7, 0xE2, 0x30, 0x39, 0x08,
    0x68, 0xA9, 0xDF, 0x33, 0x91, 0x1D, 0xFB, 0x9E, 0x3D, 0x32, 0x03, 0x07,
    0x45, 0x67, 0x1D, 0xAF, 0x2C, 0x1E, 0xD4, 0xB1], rfl⟩

def bodySha256 (bytes : Bytes) : Digest := if bytes = plainBody then plainDigest else trailingDigest

/-- Two messages, of 16 and of 17 bytes, with one type and one record. -/
theorem trailing_byte_accepted :
    checksummed bodySha256 plainBody ≠ checksummed bodySha256 trailingBody ∧
      ∃ u u', Returns (fun fuel => unpack bodySha256 fuel (checksummed bodySha256 plainBody)) u ∧
        Returns (fun fuel => unpack bodySha256 fuel (checksummed bodySha256 trailingBody)) u' ∧
        u.type = u'.type ∧ u.data = u'.data := by
  exact ⟨by decide, ⟨[], [], _⟩, ⟨[], [], _⟩, ⟨0, rfl⟩, ⟨0, rfl⟩, rfl, rfl⟩

end BinarySerializer
end BioFire
