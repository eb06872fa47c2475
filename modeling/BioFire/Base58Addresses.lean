import BioFire.Base58
import BioFire.BigIntText
import BioFire.InputSanitization
import BioFire.SessionGuard

/-!
# Base58 addresses (`src/lib/crypto/address_derivation.ts`)

The addresses of Solana and Polkadot, against the validator. `sha256` is a parameter.

* `length_encodeBase58`: how long an address is;
* `solana_accepted`: every Solana address is accepted;
* `polkadot_accepted_iff`: a Polkadot address is not, where its text has 45 or 46 units;
* `derived_accepted_iff`: which public keys have addresses that the validator accepts.
-/

namespace BioFire.AddressDerivation

open SessionGuard (dropHexMark)

/-! ## The code -/

def deriveSolanaAddress (pubKeyHex : JSString) : Except JSError JSString := do
  let cleanHex := dropHexMark pubKeyHex
  let bytes ← hexToBytes cleanHex
  let pub32 := if 32 ≤ bytes.length then bytes.take 32 else bytes
  return encodeBase58 pub32

/-- The hash that the checksum is taken from. -/
def ss58Hash (sha256 : Bytes → Digest) (payload : Bytes) : Digest :=
  let checkInput := textEncode (js "SS58PRE") ++ payload
  sha256 (sha256 checkInput).1

def derivePolkadotAddress (sha256 : Bytes → Digest) (pubKeyHex : JSString) :
    Except JSError JSString := do
  let cleanHex := dropHexMark pubKeyHex
  let bytes ← hexToBytes cleanHex
  let pub32 := bytes.take 32
  let payload := 0 :: pub32
  let checksum := (ss58Hash sha256 payload).1.take 2
  return encodeBase58 (payload ++ checksum)

/-! ## Characters and lengths -/

theorem charAt_base58 {d : ℕ} (hd : d < 58) : ∃ c, charAt BASE58_ALPHABET d = [c] ∧
    isBase58 c = true ∧ isWhitespace c = false := by
  have hlt : d < BASE58_ALPHABET.length := hd
  have hall : BASE58_ALPHABET.all (fun c => isBase58 c && !isWhitespace c) = true := by decide
  have hunit := List.all_eq_true.mp hall _ (List.getElem_mem hlt)
  rw [Bool.and_eq_true, Bool.not_eq_true'] at hunit
  refine ⟨BASE58_ALPHABET[d], ?_, hunit⟩
  rw [charAt, List.getElem?_eq_getElem hlt]

/-- The digits that the encoder writes behind the leading ones. -/
theorem digits_lt {rest : Bytes} {d : ℕ}
    (hd : d ∈ if rest = [] then [0] else Nat.digits 58 (bigEndian rest)) : d < 58 := by
  split at hd
  · rw [List.mem_singleton.mp hd]
    decide
  · exact Nat.digits_lt_base (by decide) hd

theorem encodeBase58_chars (bytes : Bytes) :
    ∀ c ∈ encodeBase58 bytes, isBase58 c = true ∧ isWhitespace c = false := by
  obtain ⟨zeros, rest, hrest, rfl⟩ := exists_zeros bytes
  rw [encodeBase58_append zeros hrest]
  intro c hc
  rcases List.mem_append.mp hc with hc | hc
  · rw [List.eq_of_mem_replicate hc]
    decide
  · obtain ⟨d, hd, hmem⟩ := List.mem_flatMap.mp hc
    obtain ⟨c', hchar, hc'⟩ := charAt_base58 (digits_lt (List.mem_reverse.mp hd))
    rw [hchar] at hmem
    rwa [List.mem_singleton.mp hmem]

theorem length_flatMap_charAt {digits : List ℕ} (hdigits : ∀ d ∈ digits, d < 58) :
    (digits.flatMap (charAt BASE58_ALPHABET)).length = digits.length := by
  induction digits with
  | nil => rfl
  | cons d digits ih =>
    obtain ⟨c, hchar, -⟩ := charAt_base58 (hdigits d List.mem_cons_self)
    rw [List.flatMap_cons, hchar, List.length_append,
      ih fun d' hd' => hdigits d' (List.mem_cons_of_mem d hd'), List.length_cons, List.length_cons,
      List.length_nil]
    omega

/-- The length of the text: the leading zeros and the digits of the rest. -/
theorem length_encodeBase58 (zeros : ℕ) {rest : Bytes} (hrest : rest.head? ≠ some 0) :
    (encodeBase58 (List.replicate zeros 0 ++ rest)).length =
      zeros + if rest = [] then 1 else (Nat.digits 58 (bigEndian rest)).length := by
  rw [encodeBase58_append zeros hrest, List.length_append, List.length_replicate,
    length_flatMap_charAt fun d hd => digits_lt (List.mem_reverse.mp hd), List.length_reverse]
  split <;> rfl

theorem bigEndian_cons (b : UInt8) (bytes : Bytes) :
    bigEndian (b :: bytes) = b.toNat * 256 ^ bytes.length + bigEndian bytes := by
  rw [bigEndian_eq_ofDigits, bigEndian_eq_ofDigits, List.reverse_cons, List.map_append,
    Nat.ofDigits_append, List.length_map, List.length_reverse, List.map_singleton,
    Nat.ofDigits_singleton]
  ring

theorem bigEndian_lt (bytes : Bytes) : bigEndian bytes < 256 ^ bytes.length := by
  induction bytes with
  | nil => exact Nat.one_pos
  | cons b bytes ih =>
    have hb := b.toNat_lt
    rw [bigEndian_cons, List.length_cons, pow_succ]
    nlinarith

theorem le_bigEndian {b : UInt8} {bytes : Bytes} (hb : b ≠ 0) :
    256 ^ bytes.length ≤ bigEndian (b :: bytes) := by
  have hpos : 1 ≤ b.toNat := by
    rw [Nat.one_le_iff_ne_zero]
    exact fun h => hb (UInt8.toNat_inj.mp h)
  rw [bigEndian_cons]
  exact (Nat.le_mul_of_pos_left _ hpos).trans (Nat.le_add_right _ _)

/-- A number of `m` bytes has at least `m` digits, and as many digits fewer than `n` as
the length `l` leaves room for. -/
theorem length_digits_bounds {b : UInt8} {bytes : Bytes} (hb : b ≠ 0) {zeros n l : ℕ}
    (hn : zeros + (bytes.length + 1) = n) (hroom : 256 ^ n ≤ 58 ^ l) (hl : zeros ≤ l) :
    n ≤ zeros + (Nat.digits 58 (bigEndian (b :: bytes))).length ∧
      zeros + (Nat.digits 58 (bigEndian (b :: bytes))).length ≤ l := by
  constructor
  · have hlow : bytes.length < (Nat.digits 58 (bigEndian (b :: bytes))).length := by
      rw [Nat.lt_digits_length_iff (by decide)]
      exact (Nat.pow_le_pow_left (by decide) _).trans (le_bigEndian hb)
    omega
  · have hhigh : (Nat.digits 58 (bigEndian (b :: bytes))).length ≤ l - zeros := by
      rw [Nat.digits_length_le_iff (by decide)]
      have hpow : 256 ^ (bytes.length + 1) * 58 ^ zeros ≤ 58 ^ (l - zeros) * 58 ^ zeros := by
        calc 256 ^ (bytes.length + 1) * 58 ^ zeros
            ≤ 256 ^ (bytes.length + 1) * 256 ^ zeros :=
              Nat.mul_le_mul_left _ (Nat.pow_le_pow_left (by decide) zeros)
          _ = 256 ^ n := by rw [← pow_add, ← hn, Nat.add_comm zeros]
          _ ≤ 58 ^ l := hroom
          _ = 58 ^ (l - zeros) * 58 ^ zeros := by rw [← pow_add, Nat.sub_add_cancel hl]
      exact (bigEndian_lt _).trans_le
        (Nat.le_of_mul_le_mul_right hpow (Nat.pow_pos (by decide)))
    omega

/-! ## The validator -/

theorem matchesClass_base58 {s : JSString} (hs : ∀ c ∈ s, isBase58 c = true) (low high : ℕ) :
    matchesClass isBase58 low high s = true ↔ low ≤ s.length ∧ s.length ≤ high := by
  rw [matchesClass, List.all_eq_true.mpr hs, Bool.and_true, Bool.and_eq_true, decide_eq_true_eq,
    decide_eq_true_eq]

theorem isEvmAddress_base58 {s : JSString} (hs : ∀ c ∈ s, isBase58 c = true) :
    isEvmAddress s = false := by
  have hmark : (js "0x").isPrefixOf s = false := by
    cases s with
    | nil => rfl
    | cons c s =>
      have hne : ((48 : UInt16) == c) = false := by
        rw [beq_eq_false_iff_ne]
        rintro rfl
        exact absurd (hs 48 List.mem_cons_self) (by decide)
      change ((48 : UInt16) == c && _) = false
      rw [hne, Bool.false_and]
  rw [isEvmAddress, hmark, Bool.false_and]

/-- Base58 text of an allowed length is taken for one of the Base58 formats. -/
theorem validateAddress_base58 (platform : Platform) {s : JSString}
    (hs : ∀ c ∈ s, isBase58 c = true ∧ isWhitespace c = false) (hlow : 20 ≤ s.length)
    (hhigh : s.length ≤ 128) :
    validateAddress platform (.string s) = .ok (isBech32Address s || isLegacyAddress s ||
      matchesClass isBase58 32 44 s || matchesClass isBase58 47 48 s) := by
  have htrim : trim s = s := trim_eq_self fun c hc => (hs c hc).2
  have hne : s ≠ [] := fun h => absurd hlow (by rw [h]; decide)
  simp only [validateAddress, htrim, MAX_ADDRESS_LENGTH]
  rw [if_neg hne, if_neg (by omega), isEvmAddress_base58 fun c hc => (hs c hc).1,
    if_neg (by decide)]

theorem solana_accepted (platform : Platform) {pubKeyHex : JSString} {key : Bytes}
    (hkey : hexToBytes (dropHexMark pubKeyHex) = .ok key) (hlength : key.length = 32) :
    ∃ address, deriveSolanaAddress pubKeyHex = .ok address ∧
      validateAddress platform (.string address) = .ok true := by
  refine ⟨encodeBase58 key, ?_, ?_⟩
  · simp only [deriveSolanaAddress, hkey, bind, Except.bind, pure, Except.pure]
    rw [if_pos hlength.ge, List.take_of_length_le hlength.le]
  · have hbounds : 32 ≤ (encodeBase58 key).length ∧ (encodeBase58 key).length ≤ 44 := by
      obtain ⟨zeros, rest, hrest, rfl⟩ := exists_zeros key
      rw [List.length_append, List.length_replicate] at hlength
      rw [length_encodeBase58 zeros hrest]
      cases rest with
      | nil =>
        rw [List.length_nil] at hlength
        rw [if_pos rfl]
        omega
      | cons b rest =>
        have hb : b ≠ 0 := fun h => hrest (by rw [h]; rfl)
        rw [List.length_cons] at hlength
        rw [if_neg (List.cons_ne_nil b rest)]
        exact length_digits_bounds hb hlength (by norm_num) (by omega)
    have hchars := encodeBase58_chars key
    have hclass := (matchesClass_base58 (fun c hc => (hchars c hc).1) 32 44).mpr hbounds
    rw [validateAddress_base58 platform hchars (by omega) (by omega), hclass, Bool.or_true,
      Bool.true_or]

/-- The bytes behind the format byte of a Polkadot address have a text of 45 or 46
units together with it. -/
def rejectedLength (data : Bytes) : Prop :=
  let zeros := (data.takeWhile (· == 0)).length
  58 ^ (43 - zeros) ≤ bigEndian data ∧ bigEndian data < 58 ^ (45 - zeros)

theorem isBech32Address_one (s : JSString) : isBech32Address (49 :: s) = false := rfl

theorem length_polkadot {data : Bytes} (hlength : data.length = 34) :
    35 ≤ (encodeBase58 (0 :: data)).length ∧ (encodeBase58 (0 :: data)).length ≤ 48 ∧
      (rejectedLength data ↔ (encodeBase58 (0 :: data)).length = 45 ∨
        (encodeBase58 (0 :: data)).length = 46) := by
  obtain ⟨zeros, rest, hrest, rfl⟩ := exists_zeros data
  rw [List.length_append, List.length_replicate] at hlength
  have htext := length_encodeBase58 (zeros + 1) hrest
  rw [List.replicate_succ, List.cons_append] at htext
  rw [htext, rejectedLength, takeWhile_replicate_append zeros hrest, List.length_replicate,
    bigEndian_replicate]
  cases rest with
  | nil =>
    rw [List.length_nil] at hlength
    rw [if_pos rfl]
    refine ⟨by omega, by omega, fun h => ?_, fun h => ?_⟩
    · exact absurd h.1 (Nat.not_le.mpr (Nat.pow_pos (by decide)))
    · omega
  | cons b rest =>
    have hb : b ≠ 0 := fun h => hrest (by rw [h]; rfl)
    rw [List.length_cons] at hlength
    have hbounds := length_digits_bounds hb hlength (l := 47) (by norm_num) (by omega)
    rw [if_neg (List.cons_ne_nil b rest)]
    refine ⟨by omega, by omega, ?_⟩
    rw [← Nat.lt_digits_length_iff (by decide), ← Nat.digits_length_le_iff (by decide)]
    omega

/-- A Polkadot address is accepted unless its text has 45 or 46 units. -/
theorem polkadot_accepted_iff (platform : Platform) (sha256 : Bytes → Digest)
    {pubKeyHex : JSString} {key checksum : Bytes}
    (hkey : hexToBytes (dropHexMark pubKeyHex) = .ok key) (hlength : key.length = 32)
    (hchecksum : (ss58Hash sha256 (0 :: key)).1.take 2 = checksum) :
    (∃ address, derivePolkadotAddress sha256 pubKeyHex = .ok address ∧
      validateAddress platform (.string address) = .ok true) ↔
      ¬rejectedLength (key ++ checksum) := by
  have haddress : derivePolkadotAddress sha256 pubKeyHex =
      .ok (encodeBase58 (0 :: (key ++ checksum))) := by
    simp only [derivePolkadotAddress, hkey, bind, Except.bind, pure, Except.pure]
    rw [List.take_of_length_le hlength.le, hchecksum, List.cons_append]
  have hdata : (key ++ checksum).length = 34 := by
    rw [List.length_append, hlength, ← hchecksum, List.length_take,
      (ss58Hash sha256 (0 :: key)).2]
    rfl
  obtain ⟨hlow, hhigh, hrejected⟩ := length_polkadot hdata
  have hchars := encodeBase58_chars (0 :: (key ++ checksum))
  have hbase58 := matchesClass_base58 fun c hc => (hchars c hc).1
  obtain ⟨text, htext⟩ : ∃ text, encodeBase58 (0 :: (key ++ checksum)) = 49 :: text := by
    rw [encodeBase58, List.takeWhile_cons_of_pos rfl]
    exact ⟨_, rfl⟩
  have hlegacy : isLegacyAddress (encodeBase58 (0 :: (key ++ checksum))) = true →
      (encodeBase58 (0 :: (key ++ checksum))).length ≤ 35 := by
    rw [isLegacyAddress, Bool.and_eq_true, matchesClass, Bool.and_eq_true, Bool.and_eq_true,
      decide_eq_true_eq, decide_eq_true_eq, List.length_drop]
    omega
  have haccepted : validateAddress platform (.string (encodeBase58 (0 :: (key ++ checksum)))) =
      .ok true ↔ ¬rejectedLength (key ++ checksum) := by
    rw [validateAddress_base58 platform hchars (by omega) (by omega), htext, isBech32Address_one,
      ← htext, Except.ok.injEq, Bool.or_eq_true, Bool.or_eq_true, Bool.or_eq_true, hbase58, hbase58,
      hrejected]
    constructor
    · rintro (((h | h) | h) | h)
      · cases h
      · have hshort := hlegacy h
        omega
      · omega
      · omega
    · intro h
      by_cases hshort : (encodeBase58 (0 :: (key ++ checksum))).length ≤ 44
      · exact Or.inl (Or.inr ⟨by omega, hshort⟩)
      · exact Or.inr ⟨by omega, hhigh⟩
  constructor
  · rintro ⟨address, hderive, hvalid⟩
    rw [haddress] at hderive
    obtain rfl := Except.ok.inj hderive
    exact haccepted.mp hvalid
  · exact fun h => ⟨_, haddress, haccepted.mpr h⟩

/-- **Derived addresses and the validator**: the address of a public key of 32 bytes
is accepted for both chains exactly when the bytes behind the format byte do not make
a Polkadot text of 45 or 46 units. -/
theorem derived_accepted_iff (platform : Platform) (sha256 : Bytes → Digest)
    {pubKeyHex : JSString} {key : Bytes} {c₀ c₁ : UInt8}
    (hkey : hexToBytes (dropHexMark pubKeyHex) = .ok key) (hlength : key.length = 32)
    (hchecksum : (ss58Hash sha256 (0 :: key)).1.take 2 = [c₀, c₁]) :
    ((∃ address, deriveSolanaAddress pubKeyHex = .ok address ∧
        validateAddress platform (.string address) = .ok true) ∧
      ∃ address, derivePolkadotAddress sha256 pubKeyHex = .ok address ∧
        validateAddress platform (.string address) = .ok true) ↔
      ¬rejectedLength (key ++ [c₀, c₁]) := by
  rw [polkadot_accepted_iff platform sha256 hkey hlength hchecksum]
  exact and_iff_right (solana_accepted platform hkey hlength)

/-- A key without a zero byte in front, with upper-case digits and a `0x`. -/
theorem derived_accepted_iff_ff :
    ((∃ address, deriveSolanaAddress (js "0x" ++ List.replicate 64 70) = .ok address ∧
        validateAddress asciiPlatform (.string address) = .ok true) ∧
      ∃ address, derivePolkadotAddress (fun _ => zeroDigest)
          (js "0x" ++ List.replicate 64 70) = .ok address ∧
        validateAddress asciiPlatform (.string address) = .ok true) ↔
      ¬rejectedLength (List.replicate 32 255 ++ [0, 0]) :=
  derived_accepted_iff asciiPlatform (fun _ => zeroDigest) (by decide) (by decide) (by decide)

/-- The key `0001` with thirty zero bytes. -/
theorem polkadot_rejected :
    hexToBytes (dropHexMark (bytesToHex (0 :: 1 :: List.replicate 30 0))) =
        .ok (0 :: 1 :: List.replicate 30 0) ∧
      ¬∃ address, derivePolkadotAddress (fun _ => zeroDigest)
          (bytesToHex (0 :: 1 :: List.replicate 30 0)) = .ok address ∧
        validateAddress asciiPlatform (.string address) = .ok true := by
  have hkey : hexToBytes (dropHexMark (bytesToHex (0 :: 1 :: List.replicate 30 0))) =
      .ok (0 :: 1 :: List.replicate 30 0) := by decide
  refine ⟨hkey, ?_⟩
  rw [polkadot_accepted_iff asciiPlatform (fun _ => zeroDigest) hkey (by decide) rfl, not_not]
  constructor <;> decide

end BioFire.AddressDerivation
