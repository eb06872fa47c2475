import BioFire.PackContent

/-!
# The size of frames (`src/lib/network/transport.ts`)

A packed message is sent with a tag of 32 bytes behind it. Its receiver checks the size of
the frame, and that of the message again after the tag is cut off.

* `encodeValue_length`, `packFields_length`: the sizes of values and fields;
* `received_iff`: which packed messages have frames that a receiver takes.
-/

namespace BioFire.Transport

open BinarySerializer

/-! ## Frames -/

/-- The default of `maxPayloadSize`. -/
def maxPayloadSize : ℕ := 1024 * 1024

section

variable (hmac : Bytes → Bytes → Digest) (sha256 : Bytes → Digest) (authKey : Bytes)

def authenticatePayload (serialized : SerializedPayload) : SerializedPayload :=
  { serialized with bytes := serialized.bytes ++ (hmac authKey serialized.bytes).1 }

/-- `data.slice(0, data.length - 32)` -/
def strippedPayload (data : Bytes) : Bytes := slice data 0 (data.length - 32)

/-- `verifyAuthentication`; the comparison in constant time is equality. -/
def verifyAuthentication (data : Bytes) : Bool :=
  if data.length < 32 then false
  else slice data (data.length - 32) data.length = (hmac authKey (strippedPayload data)).1

/-- What becomes of a frame. -/
inductive Reception where
  /-- The socket is closed with the code 1009. -/
  | tooLarge
  | authFailure
  | unpacked (result : Outcome JSError UnpackedPayload)

/-- The listener of `setupClient`, and `handleMessage`. The server and the client of a socket
refuse frames of more than `maxPayload` bytes as well. -/
def onMessage (fuel : ℕ) (data : Bytes) : Reception :=
  if maxPayloadSize < data.length then .tooLarge
  else if !verifyAuthentication hmac authKey data then .authFailure
  else .unpacked (unpack sha256 fuel (strippedPayload data))

end

/-- A receiver with the default configuration does not refuse the frame for its size. -/
def Received (data : Bytes) : Prop :=
  data.length ≤ maxPayloadSize ∧ (strippedPayload data).length ≤ MAX_PAYLOAD_SIZE

/-! ## The sizes of values -/

/-- The number of bytes of a number. -/
def numberSize (x : JSNumber) : ℕ := if x.leRat 0xFF then 1 else if x.leRat 0xFFFF then 2 else 4

mutual

/-- The number of bytes of a value, without its key, type and length. -/
def valueSize : JSValue → ℕ
  | .bool _ => 1
  | .number x => numberSize x
  | .bigint _ => 32
  | .bytes bs => bs.length
  | .string s => (textEncode s).length
  | .array items => itemsSize items
  | .map entries => entriesSize entries
  | .undefined => 0
  | .null => 0

def itemsSize : List JSValue → ℕ
  | [] => 0
  | item :: items => 6 + valueSize item + itemsSize items

def entriesSize : List (JSString × JSValue) → ℕ
  | [] => 0
  | (key, value) :: entries =>
    (textEncode key).length + valueSize value + 6 + entriesSize entries

end

theorem encodeNumber_length {x : JSNumber} {t : UInt8} {v : Bytes}
    (h : encodeNumber x = .ok (t, v)) : v.length = numberSize x := by
  unfold encodeNumber at h
  rw [numberSize]
  split at h
  · cases h
  · split at h
    next hsmall =>
      cases h
      rw [if_pos hsmall]
      rfl
    next hsmall =>
      split at h
      next hmiddle =>
        cases h
        rw [if_neg hsmall, if_pos hmiddle]
        rfl
      next hmiddle =>
        rw [if_neg hsmall, if_neg hmiddle]
        split at h
        · cases h
          rfl
        · split at h <;> cases h

theorem bigIntToBytes_length (n : ℤ) (k : ℕ) : (bigIntToBytes n k).length = k := by
  induction k generalizing n with
  | zero => rfl
  | succ k ih => rw [bigIntToBytes, List.length_append, ih, List.length_singleton]

theorem encodeField_length {key : JSString} {value : JSValue} {field : Bytes}
    (h : encodeField key value = .ok field)
    (hvalue : ∀ {t v}, encodeValue value = .ok (t, v) → v.length = valueSize value) :
    field.length = (textEncode key).length + valueSize value + 6 := by
  obtain ⟨-, t, v, hencode, rfl⟩ := encodeKeyed_eq_ok.mp h
  rw [frameField_length, hvalue hencode]

mutual

/-- **The size of a value** is the length of its encoding. -/
theorem encodeValue_length (value : JSValue) {t : UInt8} {v : Bytes}
    (h : encodeValue value = .ok (t, v)) : v.length = valueSize value := by
  cases value with
  | bool b =>
    cases h
    rfl
  | number x =>
    rw [encodeValue] at h
    rw [valueSize, encodeNumber_length h]
  | bigint n =>
    cases h
    rw [valueSize, bigIntToBytes_length]
  | bytes bs =>
    cases h
    rw [valueSize]
  | string s =>
    obtain ⟨-, -, rfl⟩ := encodeValue_string_eq_ok.mp h
    rw [valueSize]
  | array items =>
    rw [valueSize, encodeItems_length items (encodeValue_array_eq_ok.mp h).2]
  | map entries =>
    rw [valueSize, encodeEntries_length entries (encodeValue_map_eq_ok.mp h).2]
  | undefined => cases h
  | null => cases h

theorem encodeItems_length (items : List JSValue) {bytes : Bytes}
    (h : encodeItems items = .ok bytes) : bytes.length = itemsSize items := by
  cases items with
  | nil =>
    cases h
    rfl
  | cons item items =>
    obtain ⟨part, parts, hpart, hparts, rfl⟩ := encodeItems_cons_eq_ok.mp h
    rw [List.length_append, encodeField_length hpart (encodeValue_length item),
      encodeItems_length items hparts, itemsSize]
    have hempty : (textEncode []).length = 0 := by decide
    omega

theorem encodeEntries_length (entries : List (JSString × JSValue)) {bytes : Bytes}
    (h : encodeEntries entries = .ok bytes) : bytes.length = entriesSize entries := by
  cases entries with
  | nil =>
    cases h
    rfl
  | cons entry entries =>
    obtain ⟨part, parts, hpart, hparts, rfl⟩ := encodeEntries_cons_eq_ok.mp h
    rw [List.length_append, encodeField_length hpart (encodeValue_length entry.2),
      encodeEntries_length entries hparts, entriesSize]

end

theorem packFields_length {count : ℕ} {data : JSRecord} {fields : List Bytes}
    (h : packFields count data = .ok fields) : fields.flatten.length = entriesSize data := by
  induction data generalizing count fields with
  | nil =>
    cases h
    rfl
  | cons entry data ih =>
    obtain ⟨-, field, rest, hfield, -, hrest, rfl⟩ := packFields_cons_eq_ok.mp h
    rw [List.flatten_cons, List.length_append, encodeField_length hfield
      (encodeValue_length entry.2), ih hrest, entriesSize]

theorem pack_length {sha256 : Bytes → Digest} {type : JSString} {data : JSRecord}
    {p : SerializedPayload} (h : pack sha256 type data = .ok p) :
    p.bytes.length = headerSize type + entriesSize data := by
  obtain ⟨fields, hfields, -, -, rfl⟩ := pack_eq_ok.mp h
  have hlength := packFields_length hfields
  rw [List.length_append, packPrefix_length, List.length_take, (sha256 _).2, hlength, headerSize]
  omega

/-! ## Frames of packed messages -/

section

variable {hmac : Bytes → Bytes → Digest} {sha256 : Bytes → Digest} {authKey : Bytes}

theorem authenticatePayload_length (p : SerializedPayload) :
    (authenticatePayload hmac authKey p).bytes.length = p.bytes.length + 32 := by
  rw [authenticatePayload, List.length_append, (hmac authKey p.bytes).2]

theorem strippedPayload_authenticatePayload (p : SerializedPayload) :
    strippedPayload (authenticatePayload hmac authKey p).bytes = p.bytes := by
  have hmiddle : slice ([] ++ (p.bytes ++ (hmac authKey p.bytes).1)) 0 (p.bytes.length : ℕ) =
      p.bytes := slice_middle rfl (by simp)
  have hstop : ((authenticatePayload hmac authKey p).bytes.length : ℤ) - 32 =
      (p.bytes.length : ℕ) := by
    rw [authenticatePayload_length]
    omega
  rw [strippedPayload, hstop]
  exact hmiddle

theorem onMessage_tooLarge_iff {fuel : ℕ} {data : Bytes} :
    onMessage hmac sha256 authKey fuel data = .tooLarge ↔ maxPayloadSize < data.length := by
  unfold onMessage
  split
  next h => exact iff_of_true rfl h
  next h =>
    refine iff_of_false ?_ h
    split <;> simp

/-- The tag of the sender is the one that the receiver computes. -/
theorem verifyAuthentication_authenticatePayload (p : SerializedPayload) :
    verifyAuthentication hmac authKey (authenticatePayload hmac authKey p).bytes = true := by
  have htag : slice (p.bytes ++ ((hmac authKey p.bytes).1 ++ [])) (p.bytes.length : ℕ)
      (p.bytes.length + 32 : ℕ) = (hmac authKey p.bytes).1 := by
    refine slice_middle rfl ?_
    rw [(hmac authKey p.bytes).2]
    rfl
  have hlength : (authenticatePayload hmac authKey p).bytes.length = p.bytes.length + 32 :=
    authenticatePayload_length p
  have hstart : ((p.bytes.length + 32 : ℕ) : ℤ) - 32 = (p.bytes.length : ℕ) := by omega
  rw [List.append_nil] at htag
  rw [verifyAuthentication, strippedPayload_authenticatePayload, hlength, if_neg (by omega),
    hstart]
  exact decide_eq_true htag

/-- **A frame that is not too large** is unpacked as the message that was packed. -/
theorem onMessage_authenticatePayload {fuel : ℕ} {p : SerializedPayload}
    (h : p.bytes.length + 32 ≤ maxPayloadSize) :
    onMessage hmac sha256 authKey fuel (authenticatePayload hmac authKey p).bytes =
      .unpacked (unpack sha256 fuel p.bytes) := by
  have hlength : (authenticatePayload hmac authKey p).bytes.length = p.bytes.length + 32 :=
    authenticatePayload_length p
  rw [onMessage, hlength, if_neg (by omega), verifyAuthentication_authenticatePayload,
    strippedPayload_authenticatePayload]
  rfl

/-- **Frames that are received.** A packed message is taken by a receiver exactly when its
fields leave room for the tag. -/
theorem received_iff {type : JSString} {data : JSRecord} {p : SerializedPayload}
    (h : pack sha256 type data = .ok p) :
    Received (authenticatePayload hmac authKey p).bytes ↔
      headerSize type + entriesSize data + 32 ≤ maxPayloadSize := by
  rw [Received, authenticatePayload_length, strippedPayload_authenticatePayload, pack_length h]
  refine and_iff_left_of_imp fun hframe => ?_
  rw [maxPayloadSize] at hframe
  rw [MAX_PAYLOAD_SIZE]
  omega

end

/-- Sixteen byte strings, of nearly the size that a field may have. -/
def fullPayload : JSRecord :=
  (List.range 16).map fun i => ([UInt16.ofNat (97 + i)], .bytes (List.replicate 65527 0))

theorem mem_fullPayload {entry : JSString × JSValue} (h : entry ∈ fullPayload) :
    (textEncode entry.1).length = 1 ∧ entry.2 = .bytes (List.replicate 65527 0) := by
  have hkey : ∀ i < 16, (textEncode [UInt16.ofNat (97 + i)]).length = 1 := by decide
  obtain ⟨i, hi, rfl⟩ := List.mem_map.mp h
  exact ⟨hkey i (List.mem_range.mp hi), rfl⟩

theorem entriesSize_eq {size : ℕ} {entries : JSRecord}
    (h : ∀ entry ∈ entries, (textEncode entry.1).length + valueSize entry.2 + 6 = size) :
    entriesSize entries = entries.length * size := by
  induction entries with
  | nil => rw [entriesSize, List.length_nil, Nat.zero_mul]
  | cons entry entries ih =>
    rw [entriesSize, h entry List.mem_cons_self,
      ih fun entry' hmem => h entry' (List.mem_cons_of_mem entry hmem), List.length_cons,
      Nat.succ_mul, Nat.add_comm]

theorem entriesSize_fullPayload : entriesSize fullPayload = 16 * 65534 := by
  have hsize : ∀ entry ∈ fullPayload,
      (textEncode entry.1).length + valueSize entry.2 + 6 = 65534 := by
    intro entry hmem
    obtain ⟨hkey, hvalue⟩ := mem_fullPayload hmem
    rw [hkey, hvalue, valueSize, List.length_replicate]
  rw [entriesSize_eq hsize, fullPayload, List.length_map, List.length_range]

theorem headerSize_full : headerSize [] = 16 := by decide

theorem pack_fullPayload : ∃ p, pack (fun _ => zeroDigest) [] fullPayload = .ok p := by
  have hcount : fullPayload.length = 16 := by
    rw [fullPayload, List.length_map, List.length_range]
  have hfits : ∀ entry ∈ fullPayload, FieldFits entry := by
    intro entry hmem
    obtain ⟨hkey, hvalue⟩ := mem_fullPayload hmem
    refine (fieldFits_iff (by omega)).mpr ⟨FIELD_TYPES.BYTES, List.replicate 65527 0, ?_, ?_⟩
    · rw [hvalue, encodeValue]
    · rw [hkey, List.length_replicate, MAX_FIELD_SIZE]
      decide
  obtain ⟨fields, hfields⟩ :=
    (packFields_isOk 0 (by rw [hcount, MAX_FIELDS]; decide)).mpr hfits
  have hlength := (packFields_length hfields).trans entriesSize_fullPayload
  have hsize : headerSize [] + fields.flatten.length ≤ MAX_PAYLOAD_SIZE := by
    rw [hlength, headerSize_full, MAX_PAYLOAD_SIZE]
    decide
  exact ⟨_, pack_eq_ok.mpr ⟨fields, hfields, by decide, hsize, rfl⟩⟩

theorem received_full :
    ∃ p, pack (fun _ => zeroDigest) [] fullPayload = .ok p ∧
      (Received (authenticatePayload (fun _ _ => zeroDigest) [] p).bytes ↔
        headerSize [] + entriesSize fullPayload + 32 ≤ maxPayloadSize) := by
  obtain ⟨p, hpack⟩ := pack_fullPayload
  exact ⟨p, hpack, received_iff hpack⟩

/-- With its tag it is refused. -/
theorem full_frame_refused :
    ∃ p, pack (fun _ => zeroDigest) [] fullPayload = .ok p ∧
      ¬ Received (authenticatePayload (fun _ _ => zeroDigest) [] p).bytes := by
  obtain ⟨p, hpack⟩ := pack_fullPayload
  refine ⟨p, hpack, fun hreceived => ?_⟩
  have hframe := hreceived.1
  rw [authenticatePayload_length, pack_length hpack, entriesSize_fullPayload, headerSize_full,
    maxPayloadSize] at hframe
  exact absurd hframe (by decide)

end BioFire.Transport
