import BioFire.PackUnpack
import BioFire.TextEncoding

/-!
# What a packed message holds

Every field carries its lengths, so the bytes of a message split into the encodings
of its values in one way only.

* `frameField_inj`: a field is read off the front of a byte string;
* `pack_inj`: messages of one type with equal bytes have equally encoded values;
* `pack_isOk`: a short record is packed when each of its fields fits;
* `encodeNumber_eq_ok`, `bigOfBytes_encodeNumber`: a number keeps its integer part.
-/

namespace BioFire.BinarySerializer

/-! ## Length bytes -/

theorem byteOf_toNat (n : ℕ) {k : ℕ} (hk : k ≤ 24) :
    (byteOf (n : ℤ) k).toNat = n / 2 ^ k % 256 := by
  have hbits : ((BitVec.ofInt 32 (n : ℤ)).sshiftRight k).setWidth 8 =
      ((BitVec.ofNat 32 n) >>> k).setWidth 8 := by
    apply BitVec.eq_of_getLsbD_eq
    intro i hi
    simp only [BitVec.getLsbD_setWidth, BitVec.getLsbD_sshiftRight, BitVec.getLsbD_ushiftRight,
      BitVec.ofInt_natCast]
    simp [hi, show k + i < 32 by omega, show i < 32 by omega]
  rw [byteOf, UInt8.toNat_ofBitVec, hbits, BitVec.toNat_setWidth, BitVec.toNat_ushiftRight,
    BitVec.toNat_ofNat, Nat.shiftRight_eq_div_pow]
  have hdvd : (2 ^ k * 256) ∣ 2 ^ 32 := by
    rw [show (256 : ℕ) = 2 ^ 8 from rfl, ← pow_add]
    exact pow_dvd_pow 2 (by omega)
  rw [show (2 : ℕ) ^ 8 = 256 from rfl, ← Nat.mod_mul_right_div_self, Nat.mod_mod_of_dvd _ hdvd,
    Nat.mod_mul_right_div_self]

theorem bigOfBytes_concat {bs : Bytes} {n k : ℕ} (hk : k ≤ 24)
    (h : bigOfBytes bs = (n / 2 ^ (k + 8) : ℕ)) :
    bigOfBytes (bs ++ [byteOf (n : ℤ) k]) = (n / 2 ^ k : ℕ) := by
  have hconcat : bigOfBytes (bs ++ [byteOf (n : ℤ) k]) =
      bigOfBytes bs * 256 + ((byteOf (n : ℤ) k).toNat : ℤ) := List.foldl_concat _ 0 _ bs
  rw [hconcat, h, byteOf_toNat n hk, pow_add, ← Nat.div_div_eq_div_mul]
  exact_mod_cast Nat.div_add_mod' (n / 2 ^ k) 256

theorem bigOfBytes_one {n : ℕ} (h : n < 2 ^ 8) : bigOfBytes [byteOf (n : ℤ) 0] = n := by
  have hnil : bigOfBytes [] = (n / 2 ^ (0 + 8) : ℕ) := by
    rw [Nat.div_eq_of_lt h]
    rfl
  simpa using bigOfBytes_concat (Nat.zero_le 24) hnil

theorem bigOfBytes_two {n : ℕ} (h : n < 2 ^ 16) :
    bigOfBytes [byteOf (n : ℤ) 8, byteOf (n : ℤ) 0] = n := by
  have hnil : bigOfBytes [] = (n / 2 ^ (8 + 8) : ℕ) := by
    rw [Nat.div_eq_of_lt h]
    rfl
  simpa using bigOfBytes_concat (Nat.zero_le 24) (bigOfBytes_concat (show 8 ≤ 24 by decide) hnil)

theorem bigOfBytes_four {n : ℕ} (h : n < 2 ^ 32) :
    bigOfBytes [byteOf (n : ℤ) 24, byteOf (n : ℤ) 16, byteOf (n : ℤ) 8, byteOf (n : ℤ) 0] = n := by
  have hnil : bigOfBytes [] = (n / 2 ^ (24 + 8) : ℕ) := by
    rw [Nat.div_eq_of_lt h]
    rfl
  have htwo := bigOfBytes_concat (show 16 ≤ 24 by decide) (bigOfBytes_concat le_rfl hnil)
  simpa using bigOfBytes_concat (Nat.zero_le 24) (bigOfBytes_concat (show 8 ≤ 24 by decide) htwo)

theorem lengthBytes_inj {m n : ℕ} (hm : m < 2 ^ 32) (hn : n < 2 ^ 32)
    (h24 : byteOf (m : ℤ) 24 = byteOf (n : ℤ) 24) (h16 : byteOf (m : ℤ) 16 = byteOf (n : ℤ) 16)
    (h8 : byteOf (m : ℤ) 8 = byteOf (n : ℤ) 8) (h0 : byteOf (m : ℤ) 0 = byteOf (n : ℤ) 0) :
    m = n := by
  have hbig := bigOfBytes_four hm
  rw [h24, h16, h8, h0, bigOfBytes_four hn] at hbig
  exact_mod_cast hbig.symm

/-! ## Fields -/

theorem frameField_length (keyBytes : Bytes) (typeByte : UInt8) (valueBytes : Bytes) :
    (frameField keyBytes typeByte valueBytes).length =
      keyBytes.length + valueBytes.length + 6 := by
  simp [frameField]
  omega

/-- **A field is read off the front** of a byte string. -/
theorem frameField_inj {k k' : Bytes} {t t' : UInt8} {v v' rest rest' : Bytes}
    (hk : k.length ≤ 255) (hk' : k'.length ≤ 255) (hv : v.length < 2 ^ 32)
    (hv' : v'.length < 2 ^ 32)
    (h : frameField k t v ++ rest = frameField k' t' v' ++ rest') :
    k = k' ∧ t = t' ∧ v = v' ∧ rest = rest' := by
  simp only [frameField, List.append_assoc, List.cons_append, List.nil_append,
    List.cons.injEq] at h
  obtain ⟨hlen, h⟩ := h
  have hklen : k.length = k'.length := by
    have e := congrArg UInt8.toNat hlen
    rw [UInt8.toNat_ofNat', UInt8.toNat_ofNat'] at e
    omega
  obtain ⟨hkey, h⟩ := List.append_inj h hklen
  simp only [List.cons.injEq] at h
  obtain ⟨htype, h24, h16, h8, h0, h⟩ := h
  obtain ⟨hvalue, hrest⟩ := List.append_inj h (lengthBytes_inj hv hv' h24 h16 h8 h0)
  exact ⟨hkey, htype, hvalue, hrest⟩

/-- Two values have one encoding. -/
def SameEncoding (a b : JSValue) : Prop :=
  ∃ encoding, encodeValue a = .ok encoding ∧ encodeValue b = .ok encoding

theorem encodeField_inj {key key' : JSString} {value value' : JSValue}
    {bytes bytes' rest rest' : Bytes} (h : encodeField key value = .ok bytes)
    (h' : encodeField key' value' = .ok bytes') (hlen : bytes.length < 2 ^ 32)
    (hlen' : bytes'.length < 2 ^ 32) (heq : bytes ++ rest = bytes' ++ rest') :
    textEncode key = textEncode key' ∧ SameEncoding value value' ∧ rest = rest' := by
  obtain ⟨hkey, t, v, hvalue, rfl⟩ := encodeKeyed_eq_ok.mp h
  obtain ⟨hkey', t', v', hvalue', rfl⟩ := encodeKeyed_eq_ok.mp h'
  rw [frameField_length] at hlen hlen'
  obtain ⟨hkeys, rfl, rfl, hrest⟩ := frameField_inj hkey hkey' (by omega) (by omega) heq
  exact ⟨hkeys, ⟨_, hvalue, hvalue'⟩, hrest⟩

/-! ## Arrays -/

theorem encodeItems_inj {items items' : List JSValue} {bytes : Bytes}
    (h : encodeItems items = .ok bytes) (h' : encodeItems items' = .ok bytes)
    (hlen : bytes.length < 2 ^ 32) : List.Forall₂ SameEncoding items items' := by
  induction items generalizing items' bytes with
  | nil =>
    cases items' with
    | nil => exact .nil
    | cons item' items' =>
      obtain ⟨part, parts, hpart, -, rfl⟩ := encodeItems_cons_eq_ok.mp h'
      obtain ⟨-, t, v, -, rfl⟩ := encodeKeyed_eq_ok.mp hpart
      cases h
  | cons item items ih =>
    obtain ⟨part, parts, hpart, hparts, rfl⟩ := encodeItems_cons_eq_ok.mp h
    rw [List.length_append] at hlen
    cases items' with
    | nil =>
      obtain ⟨-, t, v, -, rfl⟩ := encodeKeyed_eq_ok.mp hpart
      cases h'
    | cons item' items' =>
      obtain ⟨part', parts', hpart', hparts', heq⟩ := encodeItems_cons_eq_ok.mp h'
      have hlen' := congrArg List.length heq
      rw [List.length_append, List.length_append] at hlen'
      obtain ⟨-, hitem, rfl⟩ := encodeField_inj hpart hpart' (by omega) (by omega) heq
      exact .cons hitem (ih hparts hparts' (by omega))

/-! ## Messages -/

theorem packFields_cons_eq_ok {count : ℕ} {key : JSString} {value : JSValue} {data : JSRecord}
    {fields : List Bytes} : packFields count ((key, value) :: data) = .ok fields ↔
      count < MAX_FIELDS ∧ ∃ field rest, encodeField key value = .ok field ∧
        field.length ≤ MAX_FIELD_SIZE ∧ packFields (count + 1) data = .ok rest ∧
        fields = field :: rest := by
  rw [packFields]
  constructor
  · intro h
    split at h
    · cases h
    next hcount =>
      obtain ⟨field, hfield, h⟩ := bind_eq_ok h
      split at h
      · cases h
      next hsize =>
        obtain ⟨rest, hrest, h⟩ := bind_eq_ok h
        exact ⟨not_le.mp hcount, field, rest, hfield, not_lt.mp hsize, hrest,
          (Except.ok.inj h).symm⟩
  · rintro ⟨hcount, field, rest, hfield, hsize, hrest, rfl⟩
    rw [if_neg (not_le.mpr hcount), hfield]
    simp only [bind, Except.bind, if_neg (not_lt.mpr hsize), hrest]

theorem packFields_inj {count : ℕ} {data data' : JSRecord} {fields fields' : List Bytes}
    (h : packFields count data = .ok fields) (h' : packFields count data' = .ok fields')
    (heq : fields.flatten = fields'.flatten) :
    List.Forall₂ (fun e e' => textEncode e.1 = textEncode e'.1 ∧ SameEncoding e.2 e'.2)
      data data' := by
  induction data generalizing count data' fields fields' with
  | nil =>
    cases h
    cases data' with
    | nil => exact .nil
    | cons e' data' =>
      obtain ⟨-, field', rest', hfield', -, -, rfl⟩ := packFields_cons_eq_ok.mp h'
      obtain ⟨-, t, v, -, rfl⟩ := encodeKeyed_eq_ok.mp hfield'
      cases heq
  | cons e data ih =>
    obtain ⟨-, field, rest, hfield, hsize, hrest, rfl⟩ := packFields_cons_eq_ok.mp h
    cases data' with
    | nil =>
      cases h'
      obtain ⟨-, t, v, -, rfl⟩ := encodeKeyed_eq_ok.mp hfield
      cases heq
    | cons e' data' =>
      obtain ⟨-, field', rest', hfield', hsize', hrest', rfl⟩ := packFields_cons_eq_ok.mp h'
      rw [MAX_FIELD_SIZE] at hsize hsize'
      rw [List.flatten_cons, List.flatten_cons] at heq
      obtain ⟨hkey, hvalue, hflatten⟩ := encodeField_inj hfield hfield' (by omega) (by omega) heq
      exact .cons ⟨hkey, hvalue⟩ (ih hrest hrest' hflatten)

/-- The length of a packed message, without its fields. -/
def headerSize (type : JSString) : ℕ := 16 + (textEncode type).length

theorem pack_eq_ok {sha256 : Bytes → Digest} {type : JSString} {data : JSRecord}
    {p : SerializedPayload} : pack sha256 type data = .ok p ↔
      ∃ fields, packFields 0 data = .ok fields ∧ (textEncode type).length ≤ 255 ∧
        headerSize type + fields.flatten.length ≤ MAX_PAYLOAD_SIZE ∧
        p = ⟨packPrefix (headerSize type + fields.flatten.length - 4 - 1 - 4) (textEncode type)
              data.length fields.flatten ++
            (sha256 (packPrefix (headerSize type + fields.flatten.length - 4 - 1 - 4)
              (textEncode type) data.length fields.flatten)).1.take 4, type,
          js "0x" ++ bytesToHex (sha256 (packPrefix
            (headerSize type + fields.flatten.length - 4 - 1 - 4) (textEncode type) data.length
            fields.flatten)).1⟩ := by
  have htotal : ∀ fields : List Bytes, 4 + 1 + 4 + 1 + (textEncode type).length + 2 +
      fields.flatten.length + 4 = headerSize type + fields.flatten.length := by
    intro fields
    rw [headerSize]
    omega
  rw [pack]
  constructor
  · intro h
    obtain ⟨fields, hfields, h⟩ := bind_eq_ok h
    dsimp only at h
    rw [htotal] at h
    split at h
    · cases h
    next htype =>
      split at h
      · cases h
      next hsize =>
        exact ⟨fields, hfields, not_lt.mp htype, not_lt.mp hsize, (Except.ok.inj h).symm⟩
  · rintro ⟨fields, hfields, htype, hsize, rfl⟩
    simp only [hfields, bind, Except.bind, htotal, if_neg (not_lt.mpr htype),
      if_neg (not_lt.mpr hsize)]

/-- **Messages of one type with equal bytes** have equally encoded fields. -/
theorem pack_inj {sha256 : Bytes → Digest} {type : JSString} {data data' : JSRecord}
    {p p' : SerializedPayload} (h : pack sha256 type data = .ok p)
    (h' : pack sha256 type data' = .ok p') (heq : p.bytes = p'.bytes) :
    List.Forall₂ (fun e e' => textEncode e.1 = textEncode e'.1 ∧ SameEncoding e.2 e'.2)
      data data' := by
  obtain ⟨fields, hfields, -, -, rfl⟩ := pack_eq_ok.mp h
  obtain ⟨fields', hfields', -, -, rfl⟩ := pack_eq_ok.mp h'
  refine packFields_inj hfields hfields' ?_
  dsimp only at heq
  have hlength := congrArg List.length heq
  simp only [List.length_append, packPrefix_length, List.length_take, (sha256 _).2] at hlength
  obtain ⟨hheader, -⟩ := List.append_inj heq (by
    rw [packPrefix_length, packPrefix_length]
    omega)
  rw [packPrefix, packPrefix] at hheader
  exact (List.append_inj hheader (by simp)).2

/-! ## Which records are packed -/

/-- A field that `pack` accepts. -/
def FieldFits (e : JSString × JSValue) : Prop :=
  ∃ field, encodeField e.1 e.2 = .ok field ∧ field.length ≤ MAX_FIELD_SIZE

theorem packFields_isOk (count : ℕ) {data : JSRecord} (hcount : count + data.length ≤ MAX_FIELDS) :
    (∃ fields, packFields count data = .ok fields) ↔ ∀ e ∈ data, FieldFits e := by
  induction data generalizing count with
  | nil => exact iff_of_true ⟨[], rfl⟩ fun e he => absurd he List.not_mem_nil
  | cons e data ih =>
    rw [List.length_cons] at hcount
    constructor
    · rintro ⟨fields, h⟩ e' he'
      obtain ⟨-, field, rest, hfield, hsize, hrest, -⟩ := packFields_cons_eq_ok.mp h
      rcases List.mem_cons.mp he' with rfl | he'
      · exact ⟨field, hfield, hsize⟩
      · exact (ih (count + 1) (by omega)).mp ⟨rest, hrest⟩ e' he'
    · intro h
      obtain ⟨field, hfield, hsize⟩ := h e List.mem_cons_self
      obtain ⟨rest, hrest⟩ := (ih (count + 1) (by omega)).mpr
        fun e' he' => h e' (List.mem_cons_of_mem e he')
      exact ⟨field :: rest, packFields_cons_eq_ok.mpr
        ⟨by omega, field, rest, hfield, hsize, hrest, rfl⟩⟩

theorem flatten_length_le {count : ℕ} {data : JSRecord} {fields : List Bytes}
    (h : packFields count data = .ok fields) :
    fields.flatten.length ≤ data.length * MAX_FIELD_SIZE := by
  induction data generalizing count fields with
  | nil =>
    cases h
    exact Nat.zero_le _
  | cons e data ih =>
    obtain ⟨-, field, rest, -, hsize, hrest, rfl⟩ := packFields_cons_eq_ok.mp h
    have hrest' := ih hrest
    rw [List.flatten_cons, List.length_append, List.length_cons, Nat.succ_mul]
    omega

/-- **Up to fifteen fields** are packed when each of them fits. -/
theorem pack_isOk {sha256 : Bytes → Digest} {type : JSString} {data : JSRecord}
    (htype : (textEncode type).length ≤ 255) (hdata : data.length ≤ 15) :
    (∃ p, pack sha256 type data = .ok p) ↔ ∀ e ∈ data, FieldFits e := by
  rw [← packFields_isOk 0 (by rw [MAX_FIELDS]; omega)]
  constructor
  · rintro ⟨p, h⟩
    obtain ⟨fields, hfields, -⟩ := pack_eq_ok.mp h
    exact ⟨fields, hfields⟩
  · rintro ⟨fields, hfields⟩
    have hlength := flatten_length_le hfields
    have hbound := Nat.mul_le_mul_right MAX_FIELD_SIZE hdata
    refine ⟨_, pack_eq_ok.mpr ⟨fields, hfields, htype, ?_, rfl⟩⟩
    rw [headerSize]
    simp only [MAX_FIELD_SIZE, MAX_PAYLOAD_SIZE] at hlength hbound ⊢
    omega

theorem fieldFits_iff {key : JSString} {value : JSValue} (hkey : (textEncode key).length ≤ 255) :
    FieldFits (key, value) ↔ ∃ t v, encodeValue value = .ok (t, v) ∧
      (textEncode key).length + v.length + 6 ≤ MAX_FIELD_SIZE := by
  constructor
  · rintro ⟨field, hfield, hsize⟩
    obtain ⟨-, t, v, hvalue, rfl⟩ := encodeKeyed_eq_ok.mp hfield
    rw [frameField_length] at hsize
    exact ⟨t, v, hvalue, hsize⟩
  · rintro ⟨t, v, hvalue, hsize⟩
    refine ⟨_, encodeKeyed_eq_ok.mpr ⟨hkey, t, v, hvalue, rfl⟩, ?_⟩
    rw [frameField_length]
    exact hsize

/-! ## Numbers -/

theorem truncate_of_nonneg {q : ℚ} (hq : 0 ≤ q) : (JSNumber.finite q).truncate = ⌊q⌋₊ := by
  rw [Int.natCast_floor_eq_floor hq, Rat.floor_def']
  exact Int.tdiv_eq_ediv_of_nonneg (Rat.num_nonneg.mpr hq)

/-- **What a number is written as**: its integer part, in one, two or four bytes. -/
theorem encodeNumber_eq_ok {x : JSNumber} {t : UInt8} {v : Bytes}
    (h : encodeNumber x = .ok (t, v)) :
    ∃ q, x = .finite q ∧ 0 ≤ q ∧ q ≤ 0xFFFFFFFF ∧
      (⌊q⌋₊ ≤ 0xFF ∧ t = FIELD_TYPES.UINT8 ∧ v = [byteOf ⌊q⌋₊ 0] ∨
        ⌊q⌋₊ ≤ 0xFFFF ∧ t = FIELD_TYPES.UINT16 ∧ v = [byteOf ⌊q⌋₊ 8, byteOf ⌊q⌋₊ 0] ∨
        ⌊q⌋₊ ≤ 0xFFFFFFFF ∧ t = FIELD_TYPES.UINT32 ∧
          v = [byteOf ⌊q⌋₊ 24, byteOf ⌊q⌋₊ 16, byteOf ⌊q⌋₊ 8, byteOf ⌊q⌋₊ 0]) := by
  cases x with
  | nan => cases h
  | negInfinity => cases h
  | infinity => cases h
  | finite q =>
    rw [encodeNumber] at h
    simp only [JSNumber.ltRat, JSNumber.leRat, decide_eq_true_eq] at h
    split at h
    · cases h
    next hnonneg =>
      have hq := not_lt.mp hnonneg
      have hfloor : ∀ {n : ℕ}, q ≤ n → ⌊q⌋₊ ≤ n := fun hle => Nat.floor_le_of_le hle
      rw [truncate_of_nonneg hq] at h
      split at h
      next hle =>
        cases h
        exact ⟨q, rfl, hq, hle.trans (by norm_num),
          Or.inl ⟨hfloor (by exact_mod_cast hle), rfl, rfl⟩⟩
      next =>
        split at h
        next hle =>
          cases h
          exact ⟨q, rfl, hq, hle.trans (by norm_num),
            Or.inr (Or.inl ⟨hfloor (by exact_mod_cast hle), rfl, rfl⟩)⟩
        next =>
          split at h
          next hle =>
            cases h
            exact ⟨q, rfl, hq, hle,
              Or.inr (Or.inr ⟨hfloor (by exact_mod_cast hle), rfl, rfl⟩)⟩
          next =>
            split at h
            · cases h
            · cases h

/-- **A number keeps its integer part.** -/
theorem bigOfBytes_encodeNumber {x : JSNumber} {t : UInt8} {v : Bytes}
    (h : encodeNumber x = .ok (t, v)) :
    ∃ q, x = .finite q ∧ 0 ≤ q ∧ q ≤ 0xFFFFFFFF ∧ bigOfBytes v = ⌊q⌋₊ ∧ v.length ≤ 4 := by
  obtain ⟨q, rfl, hq, hle, hcases⟩ := encodeNumber_eq_ok h
  rcases hcases with ⟨hn, -, rfl⟩ | ⟨hn, -, rfl⟩ | ⟨hn, -, rfl⟩
  · exact ⟨q, rfl, hq, hle, bigOfBytes_one (by omega), by simp⟩
  · exact ⟨q, rfl, hq, hle, bigOfBytes_two (by omega), by simp⟩
  · exact ⟨q, rfl, hq, hle, bigOfBytes_four (by omega), by simp⟩

theorem finite_of_fieldFits {key : JSString} {x : JSNumber} (h : FieldFits (key, .number x)) :
    ∃ q : ℚ, x = .finite q ∧ 0 ≤ q ∧ q ≤ 0xFFFFFFFF := by
  obtain ⟨field, hfield, -⟩ := h
  obtain ⟨-, t, v, hvalue, -⟩ := encodeKeyed_eq_ok.mp hfield
  rw [encodeValue] at hvalue
  obtain ⟨q, hq, hnonneg, hle, -⟩ := bigOfBytes_encodeNumber hvalue
  exact ⟨q, hq, hnonneg, hle⟩

/-- The fractional part of a number, which no encoding keeps. -/
def fraction : JSNumber → ℚ
  | .finite q => Int.fract q
  | _ => 0

theorem number_eq_of_sameEncoding {x y : JSNumber} (h : SameEncoding (.number x) (.number y))
    (hfraction : fraction x = fraction y) : x = y := by
  obtain ⟨⟨t, v⟩, hx, hy⟩ := h
  rw [encodeValue] at hx hy
  obtain ⟨q, rfl, hq, -, hbig, -⟩ := bigOfBytes_encodeNumber hx
  obtain ⟨r, rfl, hr, -, hbig', -⟩ := bigOfBytes_encodeNumber hy
  have hfloor : (⌊q⌋₊ : ℤ) = ⌊r⌋₊ := hbig.symm.trans hbig'
  rw [Int.natCast_floor_eq_floor hq, Int.natCast_floor_eq_floor hr] at hfloor
  simp only [fraction] at hfraction
  rw [← Int.floor_add_fract q, ← Int.floor_add_fract r, hfloor, hfraction]

theorem fieldFits_number {key : JSString} (hkey : (textEncode key).length ≤ 255) {n : ℕ} :
    FieldFits (key, .number (.finite n)) ↔ n ≤ 0xFFFFFFFF := by
  rw [fieldFits_iff hkey]
  constructor
  · rintro ⟨t, v, h, -⟩
    rw [encodeValue] at h
    obtain ⟨q, hq, -, hle, -⟩ := bigOfBytes_encodeNumber h
    rw [← JSNumber.finite.inj hq] at hle
    exact_mod_cast hle
  · intro hn
    have hn' : (n : ℚ) ≤ 0xFFFFFFFF := by exact_mod_cast hn
    have hok : ∃ encoding, encodeNumber (.finite n) = .ok encoding := by
      rw [encodeNumber]
      simp only [JSNumber.ltRat, JSNumber.leRat, decide_eq_true_eq]
      rw [if_neg (not_lt.mpr (Nat.cast_nonneg n)), if_pos hn']
      split
      · exact ⟨_, rfl⟩
      · split
        · exact ⟨_, rfl⟩
        · exact ⟨_, rfl⟩
    obtain ⟨⟨t, v⟩, h⟩ := hok
    obtain ⟨-, -, -, -, -, hlength⟩ := bigOfBytes_encodeNumber h
    refine ⟨t, v, h, ?_⟩
    rw [MAX_FIELD_SIZE]
    omega

/-! ## Strings -/

theorem textEncode_eq_of_sameEncoding {s s' : JSString}
    (h : SameEncoding (.string s) (.string s')) : textEncode s = textEncode s' := by
  obtain ⟨⟨t, v⟩, hs, hs'⟩ := h
  rw [← (encodeValue_string_eq_ok.mp hs).2.2, ← (encodeValue_string_eq_ok.mp hs').2.2]

theorem fieldFits_string {key s : JSString} (hkey : (textEncode key).length ≤ 255) :
    FieldFits (key, .string s) ↔ (textEncode s).length ≤ 4096 := by
  rw [fieldFits_iff hkey]
  constructor
  · rintro ⟨t, v, h, -⟩
    exact (encodeValue_string_eq_ok.mp h).1
  · intro h
    refine ⟨_, _, encodeValue_string_eq_ok.mpr ⟨h, rfl, rfl⟩, ?_⟩
    rw [MAX_FIELD_SIZE]
    omega

/-- The bytes of a list of strings, each with its six bytes of framing. -/
def stringsSize (strings : List JSString) : ℕ :=
  (strings.map fun s => 6 + (textEncode s).length).sum

theorem encodeItems_strings {strings : List JSString} {bytes : Bytes} :
    encodeItems (strings.map .string) = .ok bytes →
      (∀ s ∈ strings, (textEncode s).length ≤ 4096) ∧ bytes.length = stringsSize strings := by
  induction strings generalizing bytes with
  | nil =>
    intro h
    cases h
    exact ⟨fun s hs => absurd hs List.not_mem_nil, rfl⟩
  | cons s strings ih =>
    intro h
    rw [List.map_cons] at h
    obtain ⟨part, parts, hpart, hparts, rfl⟩ := encodeItems_cons_eq_ok.mp h
    obtain ⟨-, t, v, hvalue, rfl⟩ := encodeKeyed_eq_ok.mp hpart
    obtain ⟨hlength, -, rfl⟩ := encodeValue_string_eq_ok.mp hvalue
    obtain ⟨hall, hsize⟩ := ih hparts
    refine ⟨List.forall_mem_cons.mpr ⟨hlength, hall⟩, ?_⟩
    rw [List.length_append, frameField_length, hsize, stringsSize, stringsSize, List.map_cons,
      List.sum_cons, show (textEncode []).length = 0 from rfl]
    omega

theorem encodeItems_strings_isOk {strings : List JSString}
    (h : ∀ s ∈ strings, (textEncode s).length ≤ 4096) :
    ∃ bytes, encodeItems (strings.map .string) = .ok bytes := by
  induction strings with
  | nil => exact ⟨[], rfl⟩
  | cons s strings ih =>
    obtain ⟨hs, hstrings⟩ := List.forall_mem_cons.mp h
    obtain ⟨parts, hparts⟩ := ih hstrings
    exact ⟨_, encodeItems_cons_eq_ok.mpr ⟨_, parts, encodeKeyed_eq_ok.mpr
      ⟨Nat.zero_le 255, _, _, encodeValue_string_eq_ok.mpr ⟨hs, rfl, rfl⟩, rfl⟩, hparts, rfl⟩⟩

theorem fieldFits_strings {key : JSString} (hkey : (textEncode key).length ≤ 255)
    {strings : List JSString} :
    FieldFits (key, .array (strings.map .string)) ↔
      (∀ s ∈ strings, (textEncode s).length ≤ 4096) ∧
        (textEncode key).length + stringsSize strings + 6 ≤ MAX_FIELD_SIZE := by
  rw [fieldFits_iff hkey]
  constructor
  · rintro ⟨t, v, h, hsize⟩
    obtain ⟨hall, hlength⟩ := encodeItems_strings (encodeValue_array_eq_ok.mp h).2
    rw [hlength] at hsize
    exact ⟨hall, hsize⟩
  · rintro ⟨hall, hsize⟩
    obtain ⟨bytes, hbytes⟩ := encodeItems_strings_isOk hall
    refine ⟨_, bytes, encodeValue_array_eq_ok.mpr ⟨rfl, hbytes⟩, ?_⟩
    rw [(encodeItems_strings hbytes).2]
    exact hsize

/-- Equally encoded lists of strings have the same bytes, string by string. -/
theorem textEncode_eq_of_sameEncoding_strings {key : JSString} {strings strings' : List JSString}
    (hfits : FieldFits (key, .array (strings.map .string)))
    (h : SameEncoding (.array (strings.map .string)) (.array (strings'.map .string))) :
    List.Forall₂ (fun s s' => textEncode s = textEncode s') strings strings' := by
  obtain ⟨⟨t, v⟩, hs, hs'⟩ := h
  obtain ⟨field, hfield, hsize⟩ := hfits
  obtain ⟨-, t', v', hvalue, rfl⟩ := encodeKeyed_eq_ok.mp hfield
  rw [hs] at hvalue
  cases hvalue
  rw [frameField_length, MAX_FIELD_SIZE] at hsize
  have hitems := encodeItems_inj (encodeValue_array_eq_ok.mp hs).2
    (encodeValue_array_eq_ok.mp hs').2 (by omega)
  rw [List.forall₂_map_left_iff, List.forall₂_map_right_iff] at hitems
  exact hitems.imp fun _ _ => textEncode_eq_of_sameEncoding

end BioFire.BinarySerializer
