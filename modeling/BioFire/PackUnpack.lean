import BioFire.BinarySerializer

/-!
# Packing and unpacking

`pack` declares the length of everything after the version byte except the
checksum, `totalLen - 9`; `unpack` expects the length of everything after the
length field except the checksum, `payload.length - 13`. The two never agree:

* `payloadHeader_pack`: on the bytes of a packed message the header checks stop
  with `Length mismatch`;
* `unpack_pack_fails`: hence no packed message can be unpacked.
-/

namespace BioFire.BinarySerializer

/-- `unpack` reads the message `p` back as `type` and `data`, with the same hash. -/
def UnpacksTo (sha256 : Bytes → Digest) (p : SerializedPayload) (type : JSString)
    (data : JSRecord) : Prop :=
  ∃ r, Returns (fun fuel => unpack sha256 fuel p.bytes) r ∧
    r.type = type ∧ r.data.Same data ∧ r.hash = p.hash

theorem packPrefix_length (bodyLen : Nat) (typeBytes : Bytes) (fieldCount : Nat)
    (payloadBody : Bytes) : (packPrefix bodyLen typeBytes fieldCount payloadBody).length =
      12 + typeBytes.length + payloadBody.length := by
  simp [packPrefix, MAGIC]
  omega

theorem pack_ok {sha256 : Bytes → Digest} {type : JSString} {data : JSRecord}
    {p : SerializedPayload} (h : pack sha256 type data = .ok p) :
    ∃ payloadBody : Bytes, ∃ totalLen : Nat,
      totalLen = 4 + 1 + 4 + 1 + (textEncode type).length + 2 + payloadBody.length + 4 ∧
      totalLen ≤ MAX_PAYLOAD_SIZE ∧
      p.bytes = packPrefix (totalLen - 4 - 1 - 4) (textEncode type) data.length payloadBody ++
        (sha256 (packPrefix (totalLen - 4 - 1 - 4) (textEncode type) data.length
          payloadBody)).1.take 4 := by
  unfold pack at h
  cases hf : packFields 0 data with
  | error e => simp [hf, bind, Except.bind] at h
  | ok fields =>
    simp only [hf, bind, Except.bind] at h
    split at h
    · cases h
    · split at h
      · cases h
      · cases h
        exact ⟨fields.flatten, _, rfl, by omega, rfl⟩

/-- The declared length is four bytes more than the one that is expected. -/
theorem payloadHeader_pack {sha256 : Bytes → Digest} {type : JSString} {data : JSRecord}
    {p : SerializedPayload} (h : pack sha256 type data = .ok p) :
    payloadHeader sha256 p.bytes = .error (serializationError (js "Length mismatch")) := by
  obtain ⟨body, totalLen, htotal, hmax, hbytes⟩ := pack_ok h
  have hlen : p.bytes.length = totalLen := by
    rw [hbytes, List.length_append, packPrefix_length, List.length_take, (sha256 _).2]
    omega
  have hmagic : p.bytes.take 4 = MAGIC := by rw [hbytes]; rfl
  have hversion : byteAt p.bytes 4 = some VERSION := by rw [hbytes]; rfl
  have hbody : int32 (byteAt p.bytes 5) (byteAt p.bytes 6) (byteAt p.bytes 7)
      (byteAt p.bytes 8) = ((totalLen - 4 - 1 - 4 : Nat) : Int) := by
    rw [hbytes]
    simp only [MAX_PAYLOAD_SIZE] at hmax
    exact int32_byteOf (n := ((totalLen - 4 - 1 - 4 : Nat) : Int)) (by omega) (by omega)
  unfold payloadHeader
  rw [hlen, hbody, if_neg (by omega), if_neg (by omega), if_neg (by simp [hmagic]),
    if_neg (by simp [hversion]), if_pos (by omega)]

/-- **No packed message can be unpacked.** -/
theorem unpack_pack_fails {sha256 : Bytes → Digest} {type : JSString} {data : JSRecord}
    {p : SerializedPayload} (h : pack sha256 type data = .ok p) :
    ¬ UnpacksTo sha256 p type data := by
  rintro ⟨r, ⟨fuel, hr⟩, _⟩
  simp [unpack, payloadHeader_pack h] at hr

/-- A text, a number, bytes and a list. -/
def shareData : JSRecord :=
  [(js "to", .string (js "node-2")), (js "round", .number (.ofInt 2)), (js "share", .bytes [1, 2, 3]),
    (js "ids", .array [.bool true])]

/-- SHA-256 of the packed message `SHARE` with these fields. -/
def shareDigest : Digest :=
  ⟨[0x95, 0xA0, 0x77, 0x31, 0xB4, 0x3F, 0xD3, 0x30, 0xB5, 0x75, 0xE3, 0x00,
    0x9C, 0x62, 0xF1, 0x95, 0xA2, 0xBD, 0xE6, 0x55, 0x7F, 0xCD, 0x18, 0x86,
    0x6E, 0xE0, 0x8A, 0x17, 0x10, 0x88, 0x33, 0x25], rfl⟩

theorem unpack_pack_fails_share :
    ∃ p, pack (fun _ => shareDigest) (js "SHARE") shareData = .ok p ∧
      ¬ UnpacksTo (fun _ => shareDigest) p (js "SHARE") shareData :=
  ⟨_, rfl, unpack_pack_fails rfl⟩

/-- SHA-256 of the packed message `PING` with the one field `ok: true`. -/
def pingDigest : Digest :=
  ⟨[0xA4, 0x23, 0x6D, 0x1B, 0x5A, 0x6D, 0x46, 0xF0, 0xEE, 0x40, 0xF3, 0xF0,
    0x4C, 0x76, 0xB1, 0x9C, 0xFA, 0xFF, 0x6C, 0x5B, 0x51, 0x0D, 0xBB, 0x33,
    0x19, 0x76, 0x3A, 0x26, 0xC5, 0x78, 0x5B, 0x83], rfl⟩

/-- `PING` with the field `ok: true`: 29 bytes that declare a body of 20 where
`unpack` expects 16. -/
theorem ping_does_not_unpack :
    ∃ p, pack (fun _ => pingDigest) (js "PING") [(js "ok", .bool true)] = .ok p ∧
      ¬ UnpacksTo (fun _ => pingDigest) p (js "PING") [(js "ok", .bool true)] := by
  obtain ⟨p, hp⟩ : ∃ p, pack (fun _ => pingDigest) (js "PING") [(js "ok", .bool true)] = .ok p :=
    ⟨_, rfl⟩
  refine ⟨p, hp, ?_⟩
  rintro ⟨r, ⟨fuel, hr⟩, _⟩
  simp [unpack, payloadHeader_pack hp] at hr

end BioFire.BinarySerializer
