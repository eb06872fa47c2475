import BioFire.JSValue
import BioFire.Outcome

/-!
# The TLV wire format (`src/lib/network/binary_serializer.ts`)

`pack` builds a message, `unpack` reads one. SHA-256 is a parameter: any
function from byte strings to 32-byte digests.

Offsets are integers, since the length fields are assembled with signed 32-bit
shifts and may carry the cursor backwards. `decodeField` and the two container
loops are fuelled.
-/

namespace BioFire.BinarySerializer

def serializationError (message : JSString) : JSError :=
  ⟨.SerializationError, js "[BinarySerializer] " ++ message⟩

def MAGIC : Bytes := [0x42, 0x46, 0x4D, 0x50]
def VERSION : UInt8 := 0x01

def MAX_PAYLOAD_SIZE : Nat := 1024 * 1024
def MAX_FIELD_SIZE : Nat := 64 * 1024
def MAX_FIELDS : Nat := 256

namespace FIELD_TYPES

def UINT8 : UInt8 := 0x01
def UINT16 : UInt8 := 0x02
def UINT32 : UInt8 := 0x03
def UINT64 : UInt8 := 0x04
def BIG_INT : UInt8 := 0x05
def BYTES : UInt8 := 0x06
def STRING : UInt8 := 0x07
def BOOL : UInt8 := 0x08
def ARRAY : UInt8 := 0x09
def MAP : UInt8 := 0x0A

end FIELD_TYPES

/-! ## Encoders -/

/-- Low byte of a bigint, `Number(v & 0xFFn)`. -/
def lowByte (v : Int) : UInt8 := UInt8.ofNat (v % 256).toNat

/-- The loop of `bigIntToBytes`, least significant byte last. -/
def bigIntToBytes (value : Int) : Nat → Bytes
  | 0 => []
  | byteLength + 1 => bigIntToBytes (value >>> (8 : ℕ)) byteLength ++ [lowByte value]

/-- A number: its field type and bytes. Above 32 bits `BigInt(value)` rejects
everything but integers and the loop then assigns to the constant `big`. -/
def encodeNumber (value : JSNumber) : Except JSError (UInt8 × Bytes) :=
  if value.ltRat 0 then .error (serializationError (js "Negative numbers not supported"))
  else if value.leRat 0xFF then
    .ok (FIELD_TYPES.UINT8, [byteOf value.truncate 0])
  else if value.leRat 0xFFFF then
    .ok (FIELD_TYPES.UINT16, [byteOf value.truncate 8, byteOf value.truncate 0])
  else if value.leRat 0xFFFFFFFF then
    .ok (FIELD_TYPES.UINT32, [byteOf value.truncate 24, byteOf value.truncate 16,
      byteOf value.truncate 8, byteOf value.truncate 0])
  else if value.isInteger then
    .error ⟨.TypeError, js "Assignment to constant variable."⟩
  else .error ⟨.RangeError, js "The number cannot be converted to a BigInt"⟩

/-- `[KEY_LEN:1][KEY:var][TYPE:1][VALUE_LEN:4][VALUE:var]`. -/
def frameField (keyBytes : Bytes) (typeByte : UInt8) (valueBytes : Bytes) : Bytes :=
  [UInt8.ofNat keyBytes.length] ++ keyBytes ++ [typeByte] ++
    [byteOf valueBytes.length 24, byteOf valueBytes.length 16, byteOf valueBytes.length 8,
      byteOf valueBytes.length 0] ++ valueBytes

/-- A field around an encoded value; the key is checked before the value. -/
def encodeKeyed (key : JSString) (value : Except JSError (UInt8 × Bytes)) :
    Except JSError Bytes :=
  if 255 < (textEncode key).length then .error (serializationError (js "Key too long"))
  else do
    let (typeByte, valueBytes) ← value
    .ok (frameField (textEncode key) typeByte valueBytes)

mutual

/-- The branches of `encodeField` on the value. -/
def encodeValue : JSValue → Except JSError (UInt8 × Bytes)
  | .bool b => .ok (FIELD_TYPES.BOOL, [if b then 1 else 0])
  | .number x => encodeNumber x
  | .bigint n => .ok (FIELD_TYPES.BIG_INT, bigIntToBytes n 32)
  | .bytes bs => .ok (FIELD_TYPES.BYTES, bs)
  | .string s =>
    if 4096 < (textEncode s).length then .error (serializationError (js "String too long"))
    else .ok (FIELD_TYPES.STRING, textEncode s)
  | .array items => do
    let parts ← encodeItems items
    .ok (FIELD_TYPES.ARRAY, parts)
  | .map entries => do
    let parts ← encodeEntries entries
    .ok (FIELD_TYPES.MAP, parts)
  | .undefined => .error (serializationError (js "Unsupported type: undefined"))
  | .null => .error (serializationError (js "Unsupported type: object"))

/-- The items of an array, each a field with an empty key, concatenated. -/
def encodeItems : List JSValue → Except JSError Bytes
  | [] => .ok []
  | item :: items => do
    let part ← encodeKeyed [] (encodeValue item)
    let parts ← encodeItems items
    .ok (part ++ parts)

/-- The properties of a map, concatenated. -/
def encodeEntries : List (JSString × JSValue) → Except JSError Bytes
  | [] => .ok []
  | (k, v) :: entries => do
    let part ← encodeKeyed k (encodeValue v)
    let parts ← encodeEntries entries
    .ok (part ++ parts)

end

def encodeField (key : JSString) (value : JSValue) : Except JSError Bytes :=
  encodeKeyed key (encodeValue value)

/-! ## What the encoders return -/

theorem encodeKeyed_eq_ok {key : JSString} {value : Except JSError (UInt8 × Bytes)}
    {bytes : Bytes} : encodeKeyed key value = .ok bytes ↔
      (textEncode key).length ≤ 255 ∧
        ∃ t v, value = .ok (t, v) ∧ bytes = frameField (textEncode key) t v := by
  rw [encodeKeyed]
  constructor
  · intro h
    split at h
    · cases h
    next hkey =>
      obtain ⟨⟨t, v⟩, hvalue, hframe⟩ := bind_eq_ok h
      exact ⟨not_lt.mp hkey, t, v, hvalue, (Except.ok.inj hframe).symm⟩
  · rintro ⟨hkey, t, v, rfl, rfl⟩
    rw [if_neg (not_lt.mpr hkey)]
    rfl

theorem encodeEntries_cons_eq_ok {key : JSString} {value : JSValue} {entries : JSRecord}
    {bytes : Bytes} : encodeEntries ((key, value) :: entries) = .ok bytes ↔
      ∃ part parts, encodeField key value = .ok part ∧ encodeEntries entries = .ok parts ∧
        bytes = part ++ parts := by
  rw [encodeEntries]
  constructor
  · intro h
    obtain ⟨part, hpart, h⟩ := bind_eq_ok h
    obtain ⟨parts, hparts, h⟩ := bind_eq_ok h
    exact ⟨part, parts, hpart, hparts, (Except.ok.inj h).symm⟩
  · rintro ⟨part, parts, hpart, hparts, rfl⟩
    rw [← encodeField, hpart, hparts]
    rfl

/-- The items of an array are written as properties with an empty key. -/
theorem encodeItems_eq (items : List JSValue) :
    encodeItems items = encodeEntries (items.map fun item => ([], item)) := by
  induction items with
  | nil => rfl
  | cons item items ih => rw [List.map_cons, encodeItems, encodeEntries, ih]

theorem encodeItems_cons_eq_ok {item : JSValue} {items : List JSValue} {bytes : Bytes} :
    encodeItems (item :: items) = .ok bytes ↔
      ∃ part parts, encodeField [] item = .ok part ∧ encodeItems items = .ok parts ∧
        bytes = part ++ parts := by
  rw [encodeItems_eq, encodeItems_eq]
  exact encodeEntries_cons_eq_ok

theorem encodeValue_string_eq_ok {s : JSString} {t : UInt8} {v : Bytes} :
    encodeValue (.string s) = .ok (t, v) ↔
      (textEncode s).length ≤ 4096 ∧ t = FIELD_TYPES.STRING ∧ v = textEncode s := by
  rw [encodeValue]
  constructor
  · intro h
    split at h
    · cases h
    next hlength =>
      cases h
      exact ⟨not_lt.mp hlength, rfl, rfl⟩
  · rintro ⟨hlength, rfl, rfl⟩
    rw [if_neg (not_lt.mpr hlength)]

theorem bind_tagged_eq_ok {x : Except JSError Bytes} {t t' : UInt8} {v : Bytes} :
    (do let parts ← x; .ok (t', parts)) = (.ok (t, v) : Except JSError (UInt8 × Bytes)) ↔
      t = t' ∧ x = .ok v := by
  constructor
  · intro h
    obtain ⟨parts, hparts, h⟩ := bind_eq_ok h
    cases h
    exact ⟨rfl, hparts⟩
  · rintro ⟨rfl, rfl⟩
    rfl

theorem encodeValue_array_eq_ok {items : List JSValue} {t : UInt8} {v : Bytes} :
    encodeValue (.array items) = .ok (t, v) ↔
      t = FIELD_TYPES.ARRAY ∧ encodeItems items = .ok v := by
  rw [encodeValue]
  exact bind_tagged_eq_ok

theorem encodeValue_map_eq_ok {entries : JSRecord} {t : UInt8} {v : Bytes} :
    encodeValue (.map entries) = .ok (t, v) ↔
      t = FIELD_TYPES.MAP ∧ encodeEntries entries = .ok v := by
  rw [encodeValue]
  exact bind_tagged_eq_ok

structure SerializedPayload where
  bytes : Bytes
  type : JSString
  hash : JSString

/-- The field loop of `pack`, after `fieldCount` fields. -/
def packFields (fieldCount : Nat) : JSRecord → Except JSError (List Bytes)
  | [] => .ok []
  | (key, value) :: entries =>
    if MAX_FIELDS ≤ fieldCount then
      .error (serializationError (js "Exceeded max field count: " ++ decimal MAX_FIELDS))
    else do
      let fieldBytes ← encodeField key value
      if MAX_FIELD_SIZE < fieldBytes.length then
        .error (serializationError
          (js "Field '" ++ key ++ js "' exceeds max size " ++ decimal MAX_FIELD_SIZE))
      else do
        let fields ← packFields (fieldCount + 1) entries
        .ok (fieldBytes :: fields)

/-- Everything in front of the checksum. -/
def packPrefix (bodyLen : Nat) (typeBytes : Bytes) (fieldCount : Nat) (payloadBody : Bytes) :
    Bytes :=
  MAGIC ++ [VERSION] ++
    [byteOf bodyLen 24, byteOf bodyLen 16, byteOf bodyLen 8, byteOf bodyLen 0] ++
    [UInt8.ofNat typeBytes.length] ++ typeBytes ++
    [byteOf fieldCount 8, byteOf fieldCount 0] ++ payloadBody

/-- `BinaryPayloadSerializer.pack`; `data` lists `Object.entries(data)`. -/
def pack (sha256 : Bytes → Digest) (type : JSString) (data : JSRecord) :
    Except JSError SerializedPayload := do
  let fields ← packFields 0 data
  let typeBytes := textEncode type
  if 255 < typeBytes.length then .error (serializationError (js "Type string too long"))
  else
    let payloadBody := fields.flatten
    let totalLen := 4 + 1 + 4 + 1 + typeBytes.length + 2 + payloadBody.length + 4
    if MAX_PAYLOAD_SIZE < totalLen then
      .error (serializationError (js "Payload exceeds max size " ++ decimal MAX_PAYLOAD_SIZE))
    else
      let bodyLen := totalLen - 4 - 1 - 4
      let body := packPrefix bodyLen typeBytes data.length payloadBody
      let hash := sha256 body
      .ok ⟨body ++ hash.1.take 4, type, js "0x" ++ bytesToHex hash.1⟩

/-! ## Decoders -/

/-- A field as `decodeField` returns it. -/
structure DecodedField where
  key : JSString
  value : JSValue
  newOffset : Int

/-- What `decodeField` has read before it looks at the value. -/
structure FieldHeader where
  key : JSString
  keyLen : Nat
  typeByte : Option UInt8
  valueLen : Int
  valueBytes : Bytes
  newOffset : Int

def unknownFieldType (typeByte : Option UInt8) : JSError :=
  serializationError (js "Unknown field type: " ++
    match typeByte with
    | none => js "undefined"
    | some b => decimal b.toNat)

/-- The header checks of `decodeField`. -/
def fieldHeader (payload : Bytes) (offset : Int) : Except JSError FieldHeader :=
  if (payload.length : Int) - 6 ≤ offset then
    .error (serializationError (js "Field header out of bounds"))
  else match byteAt payload offset with
    -- A negative offset reads `undefined`: every later offset is `NaN`, no bound
    -- check fires, and the type byte is `undefined` as well.
    | none => .error (unknownFieldType none)
    | some keyLen =>
      let keyStart := offset + 1
      if payload.length < keyStart + keyLen.toNat then
        .error (serializationError (js "Key out of bounds"))
      else
        let key := textDecode (slice payload keyStart (keyStart + keyLen.toNat))
        let typeOffset := keyStart + keyLen.toNat
        let lenOffset := typeOffset + 1
        let valueLen := int32 (byteAt payload lenOffset) (byteAt payload (lenOffset + 1))
          (byteAt payload (lenOffset + 2)) (byteAt payload (lenOffset + 3))
        let valueStart := lenOffset + 4
        if (payload.length : Int) - 4 < valueStart + valueLen then
          .error (serializationError (js "Value out of bounds for field '" ++ key ++ js "'"))
        else
          .ok ⟨key, keyLen.toNat, byteAt payload typeOffset, valueLen,
            slice payload valueStart (valueStart + valueLen), valueStart + valueLen⟩

/-- The 64-bit loop reads eight bytes, whatever the declared length. -/
def decodeUint64 (valueBytes : Bytes) : Nat → Int → Except JSError Int
  | 0, big => .ok big
  | n + 1, big =>
    match valueBytes with
    | [] => .error ⟨.TypeError, js "Cannot convert undefined to a BigInt"⟩
    | b :: bs => decodeUint64 bs n (big * 256 + b.toNat)

/-- A big-endian byte string as a bigint. -/
def bigOfBytes (valueBytes : Bytes) : Int :=
  valueBytes.foldl (fun big b => big * 256 + b.toNat) 0

/-- The branches of `decodeField` without loops; `none` for the containers. -/
def decodeScalar (typeByte : Option UInt8) (valueBytes : Bytes) :
    Option (Except JSError JSValue) :=
  if typeByte = some FIELD_TYPES.UINT8 then
    some (.ok (match byteAt valueBytes 0 with
      | none => .undefined
      | some b => .number (.ofInt b.toNat)))
  else if typeByte = some FIELD_TYPES.UINT16 then
    some (.ok (.number (.ofInt (int16 (byteAt valueBytes 0) (byteAt valueBytes 1)))))
  else if typeByte = some FIELD_TYPES.UINT32 then
    some (.ok (.number (.ofInt (int32 (byteAt valueBytes 0) (byteAt valueBytes 1)
      (byteAt valueBytes 2) (byteAt valueBytes 3)))))
  else if typeByte = some FIELD_TYPES.UINT64 then
    some ((decodeUint64 valueBytes 8 0).map .bigint)
  else if typeByte = some FIELD_TYPES.BIG_INT then some (.ok (.bigint (bigOfBytes valueBytes)))
  else if typeByte = some FIELD_TYPES.BYTES then some (.ok (.bytes valueBytes))
  else if typeByte = some FIELD_TYPES.STRING then some (.ok (.string (textDecode valueBytes)))
  else if typeByte = some FIELD_TYPES.BOOL then
    some (.ok (.bool (byteAt valueBytes 0 = some 1)))
  else if typeByte = some FIELD_TYPES.ARRAY ∨ typeByte = some FIELD_TYPES.MAP then none
  else some (.error (unknownFieldType typeByte))

/-- One round of the loop over a container: the cursor and what is collected. -/
def containerRound {σ : Type} (collect : σ → DecodedField → σ) (value : σ → JSValue)
    (decode : Bytes → Int → Outcome JSError DecodedField) (valueBytes : Bytes) (s : Int × σ) :
    Outcome JSError ((Int × σ) ⊕ JSValue) :=
  if s.1 < valueBytes.length then
    (decode valueBytes s.1).bind fun d => .returns (.inl (d.newOffset, collect s.2 d))
  else .returns (.inr (value s.2))

/-- `arr.push(v)`. -/
def arrayRound := containerRound (fun (arr : List JSValue) d => arr ++ [d.value]) .array

/-- `map[k] = v`. -/
def mapRound := containerRound (fun (map : JSRecord) d => map.assign d.key d.value) .map

/-- The value of a field, given the decoder of nested fields. -/
def decodeValue (decode : Bytes → Int → Outcome JSError DecodedField) (fuel : Nat)
    (typeByte : Option UInt8) (valueBytes : Bytes) : Outcome JSError JSValue :=
  match decodeScalar typeByte valueBytes with
  | some r => .ofExcept r
  | none =>
    if typeByte = some FIELD_TYPES.ARRAY then
      Outcome.loop (arrayRound decode valueBytes) fuel (0, [])
    else Outcome.loop (mapRound decode valueBytes) fuel (0, [])

def decodeField : Nat → Bytes → Int → Outcome JSError DecodedField
  | 0, _, _ => .running
  | fuel + 1, payload, offset =>
    (Outcome.ofExcept (fieldHeader payload offset)).bind fun h =>
      (decodeValue (decodeField fuel) fuel h.typeByte h.valueBytes).bind fun value =>
        .returns ⟨h.key, value, h.newOffset⟩

/-- The field loop of `unpack`: `count` more fields. -/
def unpackFields (fuel : Nat) (payload : Bytes) : Nat → Int → JSRecord → Outcome JSError JSRecord
  | 0, _, data => .returns data
  | count + 1, offset, data =>
    (decodeField fuel payload offset).bind fun d =>
      unpackFields fuel payload count d.newOffset (data.assign d.key d.value)

structure UnpackedPayload where
  type : JSString
  data : JSRecord
  hash : JSString

/-- What `unpack` has read before the field loop. -/
structure PayloadHeader where
  type : JSString
  fieldCount : Nat
  offset : Int
  hash : JSString

/-- The checks of `unpack` in front of the field loop. -/
def payloadHeader (sha256 : Bytes → Digest) (payload : Bytes) : Except JSError PayloadHeader :=
  if payload.length < 12 then .error (serializationError (js "Payload too small"))
  else if MAX_PAYLOAD_SIZE < payload.length then
    .error (serializationError (js "Payload exceeds max size"))
  else if payload.take 4 ≠ MAGIC then .error (serializationError (js "Invalid magic bytes"))
  else if byteAt payload 4 ≠ some VERSION then
    .error (serializationError
      (js "Unsupported version: " ++ decimal ((byteAt payload 4).getD 0).toNat))
  else if int32 (byteAt payload 5) (byteAt payload 6) (byteAt payload 7) (byteAt payload 8) ≠
      (payload.length : Int) - 13 then .error (serializationError (js "Length mismatch"))
  else if slice payload (payload.length - 4) payload.length ≠
      (sha256 (slice payload 0 (payload.length - 4))).1.take 4 then
    .error (serializationError (js "CRC mismatch — payload corrupted or tampered"))
  else
    let typeLen := ((byteAt payload 9).getD 0).toNat
    if (payload.length : Int) - 4 < 10 + typeLen then
      .error (serializationError (js "Type length out of bounds"))
    else
      .ok ⟨textDecode (slice payload 10 (10 + typeLen)),
        (int16 (byteAt payload (10 + typeLen)) (byteAt payload (11 + typeLen))).toNat,
        12 + typeLen,
        js "0x" ++ bytesToHex (sha256 (slice payload 0 (payload.length - 4))).1⟩

/-- `BinaryPayloadSerializer.unpack`. -/
def unpack (sha256 : Bytes → Digest) (fuel : Nat) (payload : Bytes) :
    Outcome JSError UnpackedPayload :=
  (Outcome.ofExcept (payloadHeader sha256 payload)).bind fun h =>
    (unpackFields fuel payload h.fieldCount h.offset []).bind fun data =>
      .returns ⟨h.type, data, h.hash⟩

end BioFire.BinarySerializer
