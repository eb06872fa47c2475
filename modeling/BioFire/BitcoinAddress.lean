import BioFire.Base58Addresses
import BioFire.BitGroups
import BioFire.EvmAddress

/-!
# Bitcoin addresses (`src/lib/crypto/address_derivation.ts`)

`deriveBitcoinAddress`, and what its checksum is good for. RIPEMD-160 and SHA-256 are parameters.

* `decodeProgram_convertBits`: the groups of five bits are read back;
* `foldl_polymodStep_injective`, `burst_changes`: the polymod tells any two blocks of at most six
  values apart, wherever they stand;
* `bitcoin_address_guarded`: an address and the texts that differ from it in one burst.
-/

namespace BioFire.AddressDerivation

open BitStrings (groups groups_append groups_of_length_lt flatMap_groups)
open SessionGuard (dropHexMark)

/-! ## The code -/

variable {Point : Type}

/-- The key in its compressed form, as far as the length of the text tells. -/
def compressedKey (encoding : PointEncoding Point) (pubKeyHex : JSString) :
    Except JSError Bytes := do
  let cleanHex := dropHexMark pubKeyHex
  if cleanHex.length = 66 ∧ ((js "02").isPrefixOf cleanHex ∨ (js "03").isPrefixOf cleanHex) then
    hexToBytes cleanHex
  else do
    let point ← encoding.fromHex cleanHex
    return encoding.toRawBytes point true

def deriveBitcoinAddress (encoding : PointEncoding Point) (sha256 : Bytes → Digest)
    (ripemd160 : Bytes → { hash : Bytes // hash.length = 20 }) (pubKeyHex : JSString) :
    Except JSError JSString := do
  let compressedBytes ← compressedKey encoding pubKeyHex
  let sha := sha256 compressedBytes
  let hash160 := ripemd160 sha.1
  return encodeBech32 (js "bc") 0 hash160.1

structure BitcoinValidation where
  valid : Bool
  type : Option JSString
  deriving DecidableEq

/-- `isValidBitcoinAddress` of `secp256k1.ts`. -/
def isValidBitcoinAddress (address : JSString) : BitcoinValidation :=
  if isBech32Address address then ⟨true, some (js "Bech32")⟩
  else if isLegacyAddress address then
    ⟨true, some (if (js "3").isPrefixOf address then js "P2SH" else js "Legacy P2PKH")⟩
  else ⟨false, none⟩

/-! ## Decoding -/

/-- The bytes of groups of five bits, without the bits that fill up the last group. -/
def decodeProgram (values : List ℕ) : Bytes :=
  (groups 8 (values.flatMap (BitStrings.ofNat 5))).map UInt8.ofNat

theorem groups_bytes (data : Bytes) {rest : List Bool} (hrest : rest.length < 8) :
    (groups 8 (bigEndianBits data ++ rest)).map UInt8.ofNat = data := by
  induction data with
  | nil =>
    rw [bigEndianBits, List.flatMap_nil, List.nil_append, groups_of_length_lt hrest, List.map_nil]
  | cons b data ih =>
    rw [bigEndianBits, List.flatMap_cons, ← bigEndianBits, List.append_assoc,
      groups_append (by decide) (BitStrings.length_ofNat 8 b.toNat), List.map_cons, ih,
      BitStrings.value_ofNat, Nat.mod_eq_of_lt b.toNat_lt, UInt8.ofNat_toNat]

/-- **The program is read back.** -/
theorem decodeProgram_convertBits (data : Bytes) :
    decodeProgram (convertBits data 8 5 true) = data := by
  have hpadding : (padding (bigEndianBits data).length).length < 8 := by
    rw [padding, List.length_replicate]
    omega
  have hwhole : 5 ∣ (bigEndianBits data ++ padding (bigEndianBits data).length).length := by
    rw [List.length_append, padding, List.length_replicate]
    omega
  rw [decodeProgram, (convertBits_eq data).1, flatMap_groups (by decide) hwhole,
    groups_bytes data hpadding]

/-! ## The loop tells states apart -/

theorem xorGenerators_split (b chk : BitVec 32) (generators : List (BitVec 32 × ℕ)) :
    xorGenerators b chk generators = xorGenerators b 0 generators ^^^ chk := by
  have h := xorGenerators_xor b 0 0 chk generators
  rw [xorGenerators_zero] at h
  simpa using h

theorem generators_independent : ∀ b : Fin 32,
    xorGenerators (BitVec.ofNat 32 b) 0 BECH32_GEN.zipIdx &&& 31 = 0 → b = 0 := by
  decide

theorem shiftLeft_five_and (x : BitVec 32) : shiftLeft x 5 &&& 31 = 0 := by
  apply BitVec.eq_of_toNat_eq
  rw [BitVec.toNat_and, shiftLeft, BitVec.toNat_shiftLeft, Nat.shiftLeft_eq]
  change x.toNat * 2 ^ 5 % 2 ^ 32 &&& 2 ^ 5 - 1 = 0
  rw [Nat.and_two_pow_sub_one_eq_mod]
  omega

theorem polymodStep_zero_eq {x : BitVec 32} (hx : x.toNat < 2 ^ 30) (h : polymodStep x 0 = 0) :
    x = 0 := by
  have hstep : polymodStep x 0 = xorGenerators (shiftRight x 25) 0 BECH32_GEN.zipIdx ^^^
      shiftLeft (x &&& 0x1ffffff) 5 := by
    rw [polymodStep, xorGenerators_split, BitVec.ofNat_eq_ofNat, BitVec.xor_zero]
  -- no generator enters, or the last five bits would show it
  have hhigh : shiftRight x 25 = BitVec.ofNat 32 (x.toNat / 2 ^ 25) := by
    apply BitVec.eq_of_toNat_eq
    have hshift := shiftRight_ofNat (m := x.toNat) (by omega) 25
    rw [BitVec.ofNat_toNat, BitVec.setWidth_eq] at hshift
    rw [hshift, BitVec.toNat_ofNat, show 25 % 32 = 25 from rfl]
    omega
  have hlow :
      xorGenerators (BitVec.ofNat 32 (x.toNat / 2 ^ 25)) 0 BECH32_GEN.zipIdx &&& 31 = 0 := by
    have hand := congrArg (· &&& (31 : BitVec 32)) (hstep.symm.trans h)
    simp only [and_xor, shiftLeft_five_and, hhigh] at hand
    simpa using hand
  have hsmall : x.toNat / 2 ^ 25 = 0 := by
    have := generators_independent ⟨x.toNat / 2 ^ 25, by omega⟩ hlow
    exact congrArg Fin.val this
  have hshift := polymodStep_ofNat (t := x.toNat) (p := 0) (by omega) (by decide)
  rw [BitVec.ofNat_toNat, BitVec.setWidth_eq, h] at hshift
  have hzero := congrArg BitVec.toNat hshift
  rw [BitVec.toNat_ofNat] at hzero
  apply BitVec.eq_of_toNat_eq
  change 0 = _ at hzero
  change _ = 0
  omega

/-- The zeros that the other summand passes through. -/
abbrev zeros (values : List ℕ) : List ℕ := values.map fun _ => 0

theorem foldl_zeros_eq (values : List ℕ) {x : BitVec 32} (hx : x.toNat < 2 ^ 30)
    (h : (zeros values).foldl polymodStep x = 0) : x = 0 := by
  induction values generalizing x with
  | nil => exact h
  | cons v values ih => exact polymodStep_zero_eq hx (ih (polymodStep_zero_lt x) h)

/-- States of 30 bits that differ are told apart, whatever values follow. -/
theorem foldl_polymodStep_injective (z : BitVec 32) {x y : BitVec 32} (hx : x.toNat < 2 ^ 30)
    (hy : y.toNat < 2 ^ 30) (values : List ℕ)
    (h : values.foldl polymodStep (x ^^^ z) = values.foldl polymodStep (y ^^^ z)) : x = y := by
  have hsplit := foldl_polymodStep_xor (x ^^^ y) (y ^^^ z) values
  rw [BitVec.xor_assoc, ← BitVec.xor_assoc y, BitVec.xor_self, BitVec.zero_xor, h] at hsplit
  have hzeros : (zeros values).foldl polymodStep (x ^^^ y) = 0 := by
    have := congrArg (· ^^^ values.foldl polymodStep (y ^^^ z)) hsplit
    simpa [BitVec.xor_assoc] using this.symm
  have hxor := foldl_zeros_eq values (by rw [BitVec.toNat_xor]; exact Nat.xor_lt_two_pow hx hy)
    hzeros
  have := congrArg (· ^^^ y) hxor
  simpa [BitVec.xor_assoc] using this

/-! ## Bursts -/

/-- Digits below 32 are told apart by the number that they are. -/
theorem foldl_digits_inj {l l' : List ℕ} (hl : ∀ p ∈ l, p < 32) (hl' : ∀ p ∈ l', p < 32)
    (hlength : l.length = l'.length) {t t' : ℕ}
    (h : l.foldl (fun t p => t * 32 + p) t = l'.foldl (fun t p => t * 32 + p) t') :
    t = t' ∧ l = l' := by
  induction l generalizing l' t t' with
  | nil =>
    obtain rfl := List.length_eq_zero_iff.mp hlength.symm
    exact ⟨h, rfl⟩
  | cons p l ih =>
    obtain ⟨p', l', rfl⟩ := List.exists_cons_of_length_eq_add_one hlength.symm
    have hp := hl p List.mem_cons_self
    have hp' := hl' p' List.mem_cons_self
    obtain ⟨hhead, hrest⟩ := ih (fun v hv => hl v (List.mem_cons_of_mem p hv))
      (fun v hv => hl' v (List.mem_cons_of_mem p' hv)) (Nat.succ_injective hlength) h
    change t * 32 + p = t' * 32 + p' at hhead
    exact ⟨by omega, by rw [hrest, show p = p' by omega]⟩

theorem foldl_digits_lt {l : List ℕ} (hl : ∀ p ∈ l, p < 32) (t : ℕ) :
    l.foldl (fun t p => t * 32 + p) t < (t + 1) * 32 ^ l.length := by
  induction l generalizing t with
  | nil => simp
  | cons p l ih =>
    have hp := hl p List.mem_cons_self
    refine (ih (fun v hv => hl v (List.mem_cons_of_mem p hv)) _).trans_le ?_
    rw [List.length_cons, pow_succ', ← mul_assoc]
    have hstep : t * 32 + p + 1 ≤ (t + 1) * 32 := by omega
    exact Nat.mul_le_mul_right _ hstep

/-- At most six values, read from zero, are the number that they are. -/
theorem foldl_short {block : List ℕ} (hblock : ∀ v ∈ block, v < 32) (hshort : block.length ≤ 6) :
    block.foldl polymodStep 0 = BitVec.ofNat 32 (block.foldl (fun t p => t * 32 + p) 0) ∧
      block.foldl (fun t p => t * 32 + p) 0 < 2 ^ 30 := by
  have hpow : 32 ^ block.length ≤ 2 ^ 30 := by
    rw [show (2 ^ 30 : ℕ) = 32 ^ 6 from rfl]
    exact Nat.pow_le_pow_right (by decide) hshort
  have hlt := foldl_digits_lt hblock 0
  exact ⟨foldl_polymodStep_ofNat (t := 0) hblock (by omega), by omega⟩

/-- **Bursts.** Two blocks of at most six values at one place give different polymods. -/
theorem burst_changes {front block block' rest : List ℕ} (hblock : ∀ v ∈ block, v < 32)
    (hblock' : ∀ v ∈ block', v < 32) (hlength : block.length = block'.length)
    (hshort : block.length ≤ 6)
    (h : bech32Polymod (front ++ block ++ rest) = bech32Polymod (front ++ block' ++ rest)) :
    block = block' := by
  have hsplit : ∀ block : List ℕ, (∀ v ∈ block, v < 32) → block.length ≤ 6 →
      bech32Polymod (front ++ block ++ rest) = rest.foldl polymodStep
        (BitVec.ofNat 32 (block.foldl (fun t p => t * 32 + p) 0) ^^^
          (zeros block).foldl polymodStep (bech32Polymod front)) := by
    intro block hblock hshort
    have hlinear := foldl_polymodStep_xor (bech32Polymod front) 0 block
    rw [bech32Polymod, List.foldl_append, List.foldl_append, ← (foldl_short hblock hshort).1,
      BitVec.xor_comm, ← hlinear]
    simp [bech32Polymod]
  have hzeros : zeros block = zeros block' := by
    rw [zeros, zeros, List.map_const', List.map_const', hlength]
  have hlt := (foldl_short hblock hshort).2
  have hlt' := (foldl_short hblock' (hlength ▸ hshort)).2
  rw [hsplit block hblock hshort, hsplit block' hblock' (hlength ▸ hshort), hzeros] at h
  have hstate := foldl_polymodStep_injective _ (by rw [BitVec.toNat_ofNat]; omega)
    (by rw [BitVec.toNat_ofNat]; omega) rest h
  have hvalue := congrArg BitVec.toNat hstate
  rw [BitVec.toNat_ofNat, BitVec.toNat_ofNat, Nat.mod_eq_of_lt (by omega),
    Nat.mod_eq_of_lt (by omega)] at hvalue
  exact (foldl_digits_inj hblock hblock' hlength hvalue).2

/-! ## Addresses -/

/-- The text has the prefix of the main chain, and a valid checksum. -/
structure Bech32Valid (text : JSString) : Prop where
  front : text.take 3 = js "bc1"
  values : ∀ v ∈ dataValues (js "bc") text, v < 32
  polymod : bech32Polymod (hrpExpand (js "bc") ++ dataValues (js "bc") text) = 1

/-- One block of at most six units behind the prefix was replaced by other letters and digits. -/
def Burst (text altered : JSString) : Prop :=
  ∃ front block block' rest, text = front ++ block ++ rest ∧ altered = front ++ block' ++ rest ∧
    3 ≤ front.length ∧ block.length = block'.length ∧ block.length ≤ 6 ∧ block ≠ block' ∧
    ∀ c ∈ block', isAlphanumeric c = true

theorem mem_charset {c : UInt16} (h : BECH32_CHARSET.idxOf c < 32) : c ∈ BECH32_CHARSET :=
  List.idxOf_lt_length_iff.mp h

theorem charset_alphanumeric {c : UInt16} (h : c ∈ BECH32_CHARSET) : isAlphanumeric c = true := by
  have hall : BECH32_CHARSET.all isAlphanumeric = true := by decide
  exact List.all_eq_true.mp hall c h

theorem block_eq_of_values {block block' : JSString} (hblock : ∀ c ∈ block, c ∈ BECH32_CHARSET)
    (hblock' : ∀ c ∈ block', c ∈ BECH32_CHARSET)
    (h : block.map (fun c => BECH32_CHARSET.idxOf c) =
      block'.map (fun c => BECH32_CHARSET.idxOf c)) : block = block' := by
  have hback : ∀ block : JSString, (∀ c ∈ block, c ∈ BECH32_CHARSET) →
      (block.map fun c => BECH32_CHARSET.idxOf c).map (fun v => BECH32_CHARSET.getD v 0) =
        block := by
    intro block hblock
    rw [List.map_map]
    refine (List.map_congr_left fun c hc => ?_).trans (List.map_id block)
    have hlt := List.idxOf_lt_length_iff.mpr (hblock c hc)
    rw [Function.comp_apply, List.getD_eq_getElem _ _ hlt, List.getElem_idxOf]
    rfl
  rw [← hback block hblock, h, hback block' hblock']

theorem not_valid_of_burst {text altered : JSString} (h : Bech32Valid text)
    (hburst : Burst text altered) : ¬ Bech32Valid altered := by
  obtain ⟨front, block, block', rest, rfl, rfl, hfront, hlength, hshort, hne, -⟩ := hburst
  intro h'
  have hvalues : ∀ block : JSString, dataValues (js "bc") (front ++ block ++ rest) =
      (front.drop 3).map (fun c => BECH32_CHARSET.idxOf c) ++
        block.map (fun c => BECH32_CHARSET.idxOf c) ++
        rest.map (fun c => BECH32_CHARSET.idxOf c) := by
    intro block
    rw [dataValues, show (js "bc").length + 1 = 3 from rfl, List.append_assoc,
      List.drop_append_of_le_length hfront, List.map_append, List.map_append, List.append_assoc]
  have hsmall : ∀ block : JSString, Bech32Valid (front ++ block ++ rest) →
      ∀ v ∈ block.map (fun c => BECH32_CHARSET.idxOf c), v < 32 := by
    intro block hvalid v hv
    apply hvalid.values
    rw [hvalues]
    exact List.mem_append_left _ (List.mem_append_right _ hv)
  apply hne
  have hpoly := h.polymod.trans h'.polymod.symm
  rw [hvalues, hvalues, ← List.append_assoc, ← List.append_assoc, ← List.append_assoc,
    ← List.append_assoc] at hpoly
  have hmap := burst_changes (hsmall block h) (hsmall block' h') (by simpa using hlength)
    (by simpa using hshort) hpoly
  refine block_eq_of_values ?_ ?_ hmap
  · intro c hc
    exact mem_charset (hsmall block h _ (List.mem_map_of_mem hc))
  · intro c hc
    exact mem_charset (hsmall block' h' _ (List.mem_map_of_mem hc))

theorem not_whitespace {c : UInt16} (h : isAlphanumeric c = true) : isWhitespace c = false := by
  have hsmall : c.toNat < 128 := by
    simp only [isAlphanumeric, isDigit, Bool.or_eq_true, Bool.and_eq_true, decide_eq_true_eq,
      UInt16.le_iff_toNat_le] at h
    change ((48 ≤ c.toNat ∧ c.toNat ≤ 57) ∨ 65 ≤ c.toNat ∧ c.toNat ≤ 90) ∨
      97 ≤ c.toNat ∧ c.toNat ≤ 122 at h
    omega
  have hall : ∀ i : Fin 128, isAlphanumeric (UInt16.ofNat i) = true →
      isWhitespace (UInt16.ofNat i) = false := by decide
  have hc := hall ⟨c.toNat, hsmall⟩
  rw [UInt16.ofNat_toNat] at hc
  exact hc h

theorem bech32_accepted (platform : Platform) {text : JSString} (hlength : text.length = 42)
    (hfront : text.take 3 = js "bc1") (hrest : ∀ c ∈ text.drop 3, isAlphanumeric c = true) :
    validateAddress platform (.string text) = .ok true ∧
      isValidBitcoinAddress text = ⟨true, some (js "Bech32")⟩ := by
  obtain ⟨rest, rfl⟩ : ∃ rest, text = js "bc1" ++ rest :=
    ⟨text.drop 3, by rw [← hfront, List.take_append_drop]⟩
  have hdrop : (js "bc1" ++ rest).drop 3 = rest := rfl
  rw [hdrop] at hrest
  have hclass : matchesClass isAlphanumeric 38 59 rest = true := by
    rw [List.length_append, show (js "bc1").length = 3 from rfl] at hlength
    rw [matchesClass, List.all_eq_true.mpr hrest]
    simp
    omega
  have hbech : isBech32Address (js "bc1" ++ rest) = true := by
    rw [isBech32Address, hdrop, hclass]
    rfl
  have hclean : ∀ c ∈ js "bc1" ++ rest, isWhitespace c = false := by
    intro c hc
    rcases List.mem_append.mp hc with hc | hc
    · have hall : (js "bc1").all (fun c => !isWhitespace c) = true := by decide
      simpa using List.all_eq_true.mp hall c hc
    · exact not_whitespace (hrest c hc)
  constructor
  · simp only [validateAddress, trim_eq_self hclean, MAX_ADDRESS_LENGTH, hlength, hbech]
    rfl
  · rw [isValidBitcoinAddress, if_pos hbech]

/-- The program of an address: the values between the version and the checksum. -/
def programOf (address : JSString) : Bytes :=
  decodeProgram (((dataValues (js "bc") address).drop 1).take 32)

theorem valid_alphanumeric {text : JSString} (h : Bech32Valid text) :
    ∀ c ∈ text.drop 3, isAlphanumeric c = true := by
  intro c hc
  exact charset_alphanumeric (mem_charset (h.values _ (List.mem_map_of_mem hc)))

/-- **Addresses.** Every key has an address that the validators accept and from which its hash is
read back. A text that differs from it in one burst of at most six characters has no valid
checksum, and `validateAddress` accepts it all the same. -/
theorem bitcoin_address_guarded (platform : Platform) (encoding : PointEncoding Point)
    (sha256 : Bytes → Digest) (ripemd160 : Bytes → { hash : Bytes // hash.length = 20 })
    {pubKeyHex : JSString} {compressedBytes : Bytes}
    (hkey : compressedKey encoding pubKeyHex = .ok compressedBytes) :
    ∃ address, deriveBitcoinAddress encoding sha256 ripemd160 pubKeyHex = .ok address ∧
      Bech32Valid address ∧ programOf address = (ripemd160 (sha256 compressedBytes).1).1 ∧
      validateAddress platform (.string address) = .ok true ∧
      isValidBitcoinAddress address = ⟨true, some (js "Bech32")⟩ ∧
      ∀ altered, Burst address altered → ¬ Bech32Valid altered ∧
        validateAddress platform (.string altered) = .ok true := by
  generalize hhash : ripemd160 (sha256 compressedBytes).1 = hash160
  refine ⟨encodeBech32 (js "bc") 0 hash160.1, ?_, ?_⟩
  · simp only [deriveBitcoinAddress, hkey, bind, Except.bind, pure, Except.pure, hhash]
  obtain ⟨checksum, hchecksum, hfront, hvalues, hsmall, hpolymod⟩ :=
    encodeBech32_valid (js "bc") (show 0 < 32 by decide) hash160.1
  generalize encodeBech32 (js "bc") 0 hash160.1 = address at hfront hvalues hsmall hpolymod ⊢
  have hvalid : Bech32Valid address := ⟨hfront, hsmall, hpolymod⟩
  have hprogram : (convertBits hash160.1 8 5 true).length = 32 := by
    rw [(convertBits_eq hash160.1).2, hash160.2]
  have hlength : address.length = 42 := by
    have h := congrArg List.length hvalues
    rw [dataValues, List.length_map, List.length_drop, List.length_append, List.length_cons,
      hprogram, hchecksum] at h
    change address.length - 3 = 39 at h
    omega
  obtain ⟨haccepted, hbitcoin⟩ :=
    bech32_accepted platform hlength hfront (valid_alphanumeric hvalid)
  refine ⟨hvalid, ?_, haccepted, hbitcoin, ?_⟩
  · rw [programOf, hvalues, List.cons_append, List.drop_succ_cons, List.drop_zero, ← hprogram,
      List.take_left, decodeProgram_convertBits]
  · intro altered hburst
    refine ⟨not_valid_of_burst hvalid hburst, ?_⟩
    have hchars := valid_alphanumeric hvalid
    obtain ⟨front, block, block', rest, rfl, rfl, hlong, hsame, -, -, hblock'⟩ := hburst
    have htake : ∀ block : JSString, (front ++ block ++ rest).take 3 = front.take 3 := by
      intro block
      rw [List.append_assoc, List.take_append_of_le_length hlong]
    have hdrop : ∀ block : JSString,
        (front ++ block ++ rest).drop 3 = front.drop 3 ++ block ++ rest := by
      intro block
      rw [List.append_assoc, List.drop_append_of_le_length hlong, List.append_assoc]
    rw [hdrop] at hchars
    refine (bech32_accepted platform ?_ (by rw [htake, ← htake block, hvalid.front]) ?_).1
    · simpa [hsame] using hlength
    · rw [hdrop]
      intro c hc
      rcases List.mem_append.mp hc with hc | hc
      · rcases List.mem_append.mp hc with hc | hc
        · exact hchars c (List.mem_append_left _ (List.mem_append_left _ hc))
        · exact hblock' c hc
      · exact hchars c (List.mem_append_right _ hc)

/-- The base point, compressed. -/
theorem bitcoin_address_guarded_base :
    ∃ address, deriveBitcoinAddress baseEncoding (fun _ => zeroDigest)
        (fun _ => ⟨List.replicate 20 7, List.length_replicate⟩)
        (js "0x" ++ bytesToHex (2 :: baseCoordinates.take 32)) = .ok address ∧
      Bech32Valid address ∧ programOf address = List.replicate 20 7 ∧
      validateAddress asciiPlatform (.string address) = .ok true ∧
      isValidBitcoinAddress address = ⟨true, some (js "Bech32")⟩ ∧
      ∀ altered, Burst address altered → ¬ Bech32Valid altered ∧
        validateAddress asciiPlatform (.string altered) = .ok true :=
  bitcoin_address_guarded asciiPlatform baseEncoding (fun _ => zeroDigest)
    (fun _ => ⟨List.replicate 20 7, List.length_replicate⟩)
    (show compressedKey baseEncoding _ = .ok (2 :: baseCoordinates.take 32) from rfl)

end BioFire.AddressDerivation
